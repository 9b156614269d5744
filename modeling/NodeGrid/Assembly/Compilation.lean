import NodeGrid.Assembly.Label
import NodeGrid.Assembly.Statement
import NodeGrid.Text.Uppercase

/-!
# Compilation

From a source text to a program.  The text is read in upper case, line by line.
Labels are bound to the indices of the instructions that follow them, and only
then are the labels in jumps replaced, so that a jump may go forward.

The first of these stages that fails decides about the error: cutting all lines
into tokens, reading all statements, binding all labels, replacing them.
-/

namespace NodeGrid.Assembly

/-- A program, and for each instruction the line it came from.  These lines are
counted from zero. -/
structure Compilation where
  program : Program
  lineMap : List Nat
deriving BEq, ReflBEq, LawfulBEq

namespace LabelTable

/-- Binds the labels of all statements.  The first has the line number `line`
and `next` instructions before it. -/
def bind (table : LabelTable) (line next : Nat) : List Statement → Except CompileError LabelTable
  | [] => .ok table
  | statement :: rest => do
    let bound ← (table.defineAll next statement.labels).mapError (CompileError.mk line)
    bound.bind (line + 1) (next + statement.size) rest

end LabelTable

/-- The instruction of a draft. -/
def Draft.link (table : LabelTable) : Draft → Except Cause Instruction
  | .ready instruction => .ok instruction
  | .toLabel condition label => do return .jump condition (← table.resolve label)

/-- The instructions of all statements with the lines they come from, counted
from zero.  The first statement is on line `line`. -/
def linkAll (table : LabelTable) (line : Nat) :
    List Statement → Except CompileError (List (Instruction × Nat))
  | [] => .ok []
  | ⟨_, none⟩ :: rest => linkAll table (line + 1) rest
  | ⟨_, some draft⟩ :: rest => do
    let instruction ← (draft.link table).mapError (CompileError.mk (line + 1))
    return (instruction, line) :: (← linkAll table (line + 1) rest)

namespace Compilation

/-- The compilation of statements, one for each line. -/
def ofStatements (statements : List Statement) : Except CompileError Compilation := do
  let table ← LabelTable.empty.bind 1 0 statements
  let placed ← linkAll table 0 statements
  return ⟨placed.map Prod.fst, placed.map Prod.snd⟩

end Compilation

/-- The statements of a text, one for each line. -/
def readStatements (text : List Char) : Except CompileError (List Statement) := do
  let lines ← tokenLines (Text.Uppercase.ofText text)
  readLines Statement.ofTokens 1 lines

/-- Assembles the characters of a source text. -/
def compileText (text : List Char) : Except CompileError Compilation := do
  Compilation.ofStatements (← readStatements text)

/-- Assembles a source text. -/
def compile (source : String) : Except CompileError Compilation :=
  compileText source.toList

end NodeGrid.Assembly

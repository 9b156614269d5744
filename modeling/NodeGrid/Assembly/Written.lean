import NodeGrid.Instruction
import NodeGrid.Text.Lines
import NodeGrid.Text.Numeral

/-!
# Written programs

How instructions are written.  A written program has one instruction per line
and no labels: its jumps name the indices of instructions.
-/

namespace NodeGrid

/-- The written form of an operand. -/
def Operand.written : Operand → List Char
  | .immediate value => Text.writeValue value
  | .register source => source.name.toList

/-- The written form of an instruction.  Jumps name the index of their target. -/
def Instruction.written : Instruction → List Char
  | .plain operation => operation.name.toList
  | .unary operation source => operation.name.toList ++ ' ' :: source.written
  | .move source target =>
    moveName.toList ++ ' ' :: source.written ++ ',' :: ' ' :: target.name.toList
  | .jump condition target => condition.name.toList ++ ' ' :: Text.writeCount target

/-- The written form of a program, one instruction a line. -/
def Program.written (program : Program) : List Char :=
  Text.unlines (program.map Instruction.written)

/-- The written instruction as a string. -/
def Instruction.text (instruction : Instruction) : String :=
  String.ofList instruction.written

/-- The written program as a string. -/
def Program.text (program : Program) : String :=
  String.ofList program.written

end NodeGrid

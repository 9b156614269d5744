import NodeGrid.Assembly.Token

/-!
# Errors of a source text

Why a source text is not a program that a node can run, with the number of the
line that is to blame.  Lines are counted from one.
-/

namespace NodeGrid.Assembly

/-- What is wrong with a line. -/
inductive Cause where
  /-- The character starts no token. -/
  | strayCharacter (c : Char)
  /-- The token does not fit at its place in the line. -/
  | unexpectedToken (token : Token)
  /-- The line ends, or its next part starts, where something is missing. -/
  | unexpectedEnd
  /-- The register stands where a label is defined. -/
  | registerAsLabel (register : Register)
  /-- The word stands where an operation is expected. -/
  | unknownInstruction (word : Word)
  /-- The operation does not take this number of operands. -/
  | arity (operation : Word) (expected got : Nat)
  /-- The operation does not take this operand. -/
  | invalidOperand (operation : Word) (operand : Token)
  | undefinedLabel (label : List Char)
  | duplicateLabel (label : List Char)
  | unconnectedPort (port : Port)
deriving DecidableEq

/-- A cause with the line it was found in. -/
structure CompileError where
  line : Nat
  cause : Cause
deriving DecidableEq

/-- The text in the marks that quote a part of the source. -/
def quoted (text : List Char) : String :=
  "`" ++ String.ofList text ++ "`"

/-- What is reported for a cause. -/
def Cause.message : Cause → String
  | .strayCharacter c => "syntax error: unexpected " ++ quoted [c]
  | .unexpectedToken token => "syntax error: unexpected " ++ quoted token.written
  | .unexpectedEnd => "syntax error: unexpected end of line"
  | .registerAsLabel register =>
    "syntax error: register name " ++ quoted register.name.toList ++ " cannot be used as a label"
  | .unknownInstruction word => "unknown instruction " ++ quoted word.letters
  | .arity operation expected got =>
    quoted operation.letters ++ s!" expects {expected} operand(s), got {got}"
  | .invalidOperand operation operand =>
    "invalid operand " ++ quoted operand.written ++ " for " ++ quoted operation.letters
  | .undefinedLabel label => "undefined label " ++ quoted label
  | .duplicateLabel label => "label " ++ quoted label ++ " is already defined"
  | .unconnectedPort port => "port " ++ port.name ++ " is not connected"

/-- What is reported for an error, with its line in front. -/
def CompileError.message (error : CompileError) : String :=
  s!"line {error.line}: " ++ error.cause.message

/-- Reads line after line, of which the first has the number `first`. -/
def readLines {α β : Type} (read : α → Except Cause β) (first : Nat) :
    List α → Except CompileError (List β)
  | [] => .ok []
  | line :: rest => do
    let value ← (read line).mapError (CompileError.mk first)
    return value :: (← readLines read (first + 1) rest)

/-- The tokens of every line of a text. -/
def tokenLines (text : List Char) : Except CompileError (List (List Token)) :=
  readLines (fun line => (Token.scan line).mapError .strayCharacter) 1 (text.splitOn '\n')

end NodeGrid.Assembly

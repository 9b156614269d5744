import NodeGrid.Assembly.Error
import NodeGrid.Text.Numeral

/-!
# Statements

What one source line says.  A line has labels, each followed by a colon, and
then at most one operation with its operands.

Reading a line takes two steps.  The first finds its shape without regard to
the meaning of the words.  The second looks at the labels from left to right,
then at the operation, the number of operands, and the operands from left to
right; the first of these that is wrong is reported.
-/

namespace NodeGrid.Assembly

/-! ## The shape of a line -/

/-- The labels of a line and the operation after them with its operands. -/
structure Shape where
  labels : List Word
  operation : Option (Word × List Token)
deriving DecidableEq

namespace Shape

/-- Reads what follows an operand: the end of the line, or a comma and the next
operand. -/
def moreOperands : List Token → Except Cause (List Token)
  | [] => .ok []
  | .comma :: .colon :: _ => .error .unexpectedEnd
  | .comma :: .comma :: _ => .error .unexpectedEnd
  | [.comma] => .error .unexpectedEnd
  | .comma :: operand :: rest => do return operand :: (← moreOperands rest)
  | token :: _ => .error (.unexpectedToken token)

/-- Reads the operands of an operation, which are separated by commas. -/
def operands : List Token → Except Cause (List Token)
  | [] => .ok []
  | .colon :: _ => .error .unexpectedEnd
  | .comma :: _ => .error .unexpectedEnd
  | operand :: rest => do return operand :: (← moreOperands rest)

/-- Reads a line.  A word before a colon is always a label. -/
def ofTokens : List Token → Except Cause Shape
  | [] => .ok ⟨[], none⟩
  | .word label :: .colon :: rest => do
    let shape ← ofTokens rest
    return { shape with labels := label :: shape.labels }
  | .word operation :: rest => do return ⟨[], some (operation, ← operands rest)⟩
  | _ :: _ => .error .unexpectedEnd

end Shape

/-! ## Its meaning -/

/-- An instruction whose jump target may still be a label. -/
inductive Draft where
  | ready (instruction : Instruction)
  | toLabel (condition : Condition) (label : List Char)
deriving BEq, ReflBEq, LawfulBEq

/-- The labels that a line defines and the instruction that it holds. -/
structure Statement where
  labels : List (List Char)
  draft : Option Draft
deriving BEq, ReflBEq, LawfulBEq

/-- Reads the operand that an operation takes its value from. -/
def readSource (operation : Word) (token : Token) : Except Cause Operand :=
  match token with
  | .number numeral =>
    match Text.readValue? numeral with
    | some value => .ok (.immediate value)
    | none => .error (.invalidOperand operation token)
  | .word (.register register) => .ok (.register register)
  | _ => .error (.invalidOperand operation token)

/-- Reads the operand that a move writes to. -/
def readTarget (token : Token) : Except Cause Register :=
  match token with
  | .word (.register register) => .ok register
  | _ => .error (.invalidOperand .move token)

/-- Reads where a jump goes: the index of an instruction, or a label. -/
def readJump (condition : Condition) (token : Token) : Except Cause Draft :=
  match token with
  | .number numeral =>
    match Text.readCount? numeral with
    | some target => .ok (.ready (.jump condition target))
    | none => .error (.invalidOperand (.jump condition) token)
  | .word word =>
    match word.label? with
    | some label => .ok (.toLabel condition label)
    | none => .error (.invalidOperand (.jump condition) token)
  | _ => .error (.invalidOperand (.jump condition) token)

namespace Draft

/-- Reads an operation with its operands. -/
def ofOperation : Word → List Token → Except Cause Draft
  | .plain operation, [] => .ok (.ready (.plain operation))
  | .plain operation, operands => .error (.arity (.plain operation) 0 operands.length)
  | .unary operation, [source] => do
    return .ready (.unary operation (← readSource (.unary operation) source))
  | .unary operation, operands => .error (.arity (.unary operation) 1 operands.length)
  | .move, [source, target] => do
    return .ready (.move (← readSource .move source) (← readTarget target))
  | .move, operands => .error (.arity .move 2 operands.length)
  | .jump condition, [target] => readJump condition target
  | .jump condition, operands => .error (.arity (.jump condition) 1 operands.length)
  | word, _ => .error (.unknownInstruction word)

end Draft

/-- Reads a word in front of a colon. -/
def readLabel (word : Word) : Except Cause (List Char) :=
  match word with
  | .register register => .error (.registerAsLabel register)
  | word => .ok word.letters

namespace Statement

/-- The number of instructions on the line. -/
def size (statement : Statement) : Nat :=
  statement.draft.toList.length

/-- The labels and the instruction of a line.  The labels are looked at first. -/
def ofShape (shape : Shape) : Except Cause Statement := do
  let labels ← shape.labels.mapM readLabel
  match shape.operation with
  | none => return ⟨labels, none⟩
  | some (operation, operands) => return ⟨labels, some (← Draft.ofOperation operation operands)⟩

/-- The statement of a line. -/
def ofTokens (tokens : List Token) : Except Cause Statement := do
  ofShape (← Shape.ofTokens tokens)

end Statement

end NodeGrid.Assembly

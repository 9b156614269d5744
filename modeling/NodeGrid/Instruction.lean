/-!
# Instructions

A node has an accumulator, a backup register and four ports.  This file holds
the instructions it runs and how they are written.  Programs are plain lists of
instructions, and a jump names the index of the instruction that it jumps to.

Texts that are both written and read, such as programs, are lists of
characters; the spelling of a single word is a string.
-/

namespace NodeGrid

/-! ## Registers and operands -/

/-- One of the four directions in which a node can talk to a neighbour. -/
inductive Port where
  | left
  | right
  | up
  | down
deriving DecidableEq

namespace Port

/-- The ports in the order in which they are listed. -/
def all : List Port := [.left, .right, .up, .down]

/-- The upper-case spelling. -/
def name : Port → String
  | .left => "LEFT"
  | .right => "RIGHT"
  | .up => "UP"
  | .down => "DOWN"

end Port

/-- What an operand can name. -/
inductive Register where
  | port (direction : Port)
  /-- The accumulator. -/
  | acc
  /-- Reads as zero and swallows what is written to it. -/
  | nil
deriving DecidableEq

namespace Register

/-- The registers in the order in which they are listed. -/
def all : List Register := Port.all.map .port ++ [.acc, .nil]

/-- The upper-case spelling. -/
def name : Register → String
  | .port direction => direction.name
  | .acc => "ACC"
  | .nil => "NIL"

/-- The register with the given upper-case spelling. -/
def ofName? (name : String) : Option Register :=
  all.find? fun register => register.name == name

/-- The port, if the register is one. -/
def port? : Register → Option Port
  | .port direction => some direction
  | .acc | .nil => none

theorem mem_all (register : Register) : register ∈ all := by
  cases register with
  | port direction => cases direction <;> decide
  | acc => decide
  | nil => decide

/-- Every register is found under its own name. -/
theorem ofName?_name (register : Register) : ofName? register.name = some register := by
  cases register with
  | port direction => cases direction <;> rfl
  | acc => rfl
  | nil => rfl

end Register

/-- Where an instruction takes its value from. -/
inductive Operand where
  | immediate (value : Int64)
  | register (source : Register)
deriving BEq, ReflBEq, LawfulBEq

/-- The port that reading the operand waits on, if any. -/
def Operand.port? : Operand → Option Port
  | .immediate _ => none
  | .register source => source.port?

/-! ## Operations -/

/-- The operations without an operand. -/
inductive Plain where
  | nop
  /-- Negates the accumulator. -/
  | neg
  /-- Saves the accumulator in the backup register. -/
  | sav
  /-- Swaps the accumulator and the backup register. -/
  | swp
deriving DecidableEq

/-- The mnemonic. -/
def Plain.name : Plain → String
  | .nop => "NOP"
  | .neg => "NEG"
  | .sav => "SAV"
  | .swp => "SWP"

/-- The operations with one source operand. -/
inductive Unary where
  | add
  | sub
  /-- Jumps by the value read, relative to its own position. -/
  | jro
deriving DecidableEq

/-- The mnemonic. -/
def Unary.name : Unary → String
  | .add => "ADD"
  | .sub => "SUB"
  | .jro => "JRO"

/-- The name of the operation that moves a value. -/
def moveName : String := "MOV"

/-- What the accumulator must be for a jump to be taken. -/
inductive Condition where
  | always
  | zero
  | nonzero
  | positive
  | negative
deriving DecidableEq

namespace Condition

/-- The conditions in the order in which they are listed. -/
def all : List Condition := [.always, .zero, .nonzero, .positive, .negative]

/-- The name of the jump under this condition. -/
def name : Condition → String
  | .always => "JMP"
  | .zero => "JEZ"
  | .nonzero => "JNZ"
  | .positive => "JGZ"
  | .negative => "JLZ"

/-- Whether the condition holds of the accumulator. -/
def holds : Condition → Int64 → Bool
  | .always, _ => true
  | .zero, acc => acc == 0
  | .nonzero, acc => acc != 0
  | .positive, acc => 0 < acc
  | .negative, acc => acc < 0

end Condition

/-! ## Instructions -/

/-- What a node executes. -/
inductive Instruction where
  | plain (operation : Plain)
  | unary (operation : Unary) (source : Operand)
  | move (source : Operand) (target : Register)
  | jump (condition : Condition) (target : Nat)
deriving BEq, ReflBEq, LawfulBEq

namespace Instruction

/-- The ports the instruction reads and writes, in the order in which it does. -/
def ports : Instruction → List Port
  | .plain _ => []
  | .unary _ source => source.port?.toList
  | .move source target => source.port?.toList ++ target.port?.toList
  | .jump _ _ => []

/-- The index that a jump names, if the instruction is one. -/
def jumpTarget? : Instruction → Option Nat
  | .jump _ target => some target
  | .plain _ | .unary _ _ | .move _ _ => none

/-- Whether this is the jump relative to its own position. -/
def isRelativeJump : Instruction → Bool
  | .unary .jro _ => true
  | _ => false

end Instruction

/-- The instructions of a node by index. -/
abbrev Program := List Instruction

end NodeGrid

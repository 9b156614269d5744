import NodeGrid.Instruction

/-!
# Faults

Taking a value from a channel is only legitimate for a task that has been
granted one, and only a node with a loaded program executes instructions.
Operations that rely on such a rule answer with a `Fault` when it is broken, so
that "no rule is ever broken" can be stated and proved of a whole network.
-/

namespace NodeGrid

/-- A broken rule of the machine. -/
inductive Fault where
  /-- A value was taken from a channel that holds none. -/
  | emptyBuffer
  /-- A port was used that has no channel. -/
  | unconnected (port : Port)
  /-- An instruction was executed by a node that has none at its position. -/
  | noInstruction
  /-- A value was supplied to an instruction that reads none. -/
  | noSource (instruction : Instruction)
deriving BEq, ReflBEq, LawfulBEq

/-- What is reported when the rule is broken. -/
def Fault.message : Fault → String
  | .emptyBuffer => "A granted `filled_slots` permit must come with a buffered item"
  | .unconnected port => "port " ++ port.name ++ " is used but not connected"
  | .noInstruction => "an instruction is executed without a program"
  | .noSource _ => "a value is supplied to an instruction that reads none"

end NodeGrid

import NodeGrid.Proofs.Node.Demand
import Mathlib.Logic.Function.Basic

/-!
# A node by itself

An environment answers the demands of a node: a value asked for is the next one
that the port supplies, and a value offered is accepted.  The history of the node
in this environment is the list of its port events, each with the registers of the
node and the number of instructions it had completed.

A history is cut off after a number of steps, because a node never ends.
-/

namespace NodeGrid

/-- What happens at a port. -/
inductive PortEvent where
  | read (port : Port) (value : Int64)
  | write (port : Port) (value : Int64)
deriving DecidableEq

/-- A port event and the state that the node was in. -/
structure Moment where
  event : PortEvent
  acc : Int64
  bak : Int64
  /-- The number of instructions completed before. -/
  executed : ℕ
deriving DecidableEq

/-- The values that are going to come in at each port. -/
abbrev Supply := Port → ℕ → Int64

/-- The supply after a value has been taken from `port`. -/
def Supply.advance (supply : Supply) (port : Port) : Supply :=
  Function.update supply port fun index => supply port (index + 1)

variable {n : ℕ}

/-- A port event in the current state of the node. -/
def Node.moment (node : Node n) (event : PortEvent) : Moment where
  event
  acc := node.acc
  bak := node.bak
  executed := node.executed

/-- The end of a step whose offer is accepted. -/
def Pause.answer : Pause n → Except Fault (List Moment × Node n)
  | .settled node => .ok ([], node)
  | .writing port value node => do
    let _ ← node.channel port
    return ([node.moment (.write port value)], node.finish none)

/-- The end of a step whose demands the environment answers. -/
def Demand.answer (supply : Supply) : Demand n → Except Fault (List Moment × Node n × Supply)
  | .paused pause => do
    let (moments, after) ← pause.answer
    return (moments, after, supply)
  | .reading port node => do
    let _ ← node.channel port
    let (moments, after) ← (← node.pauseAfterRead (supply port 0)).answer
    return (node.moment (.read port (supply port 0)) :: moments, after, supply.advance port)

/-- The port events of the given number of steps. -/
def Node.history (node : Node n) (supply : Supply) : ℕ → Except Fault (List Moment)
  | 0 => .ok []
  | steps + 1 => do
    let (moments, after, supply) ← (← node.demand).answer supply
    return moments ++ (← after.history supply steps)

end NodeGrid

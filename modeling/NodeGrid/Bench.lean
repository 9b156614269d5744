import NodeGrid.Network
import NodeGrid.Suite

/-!
# Benches

A bench runs wired nodes against a test suite.  Every input port is fed by a
source and every output port emptied by a sink.  A run is complete when each
sink holds as many values as the suite expects on its port; the bench counts
them and does not look at them.  A run that does not get there ends with its
budget of ticks.
-/

namespace NodeGrid

/-- Nodes whose ports lead to `n` channels, some of which are reached from
outside. -/
structure Wiring (n : Nat) where
  capacities : Vector Nat n
  nodes : List (Node n)
  /-- The channel of every input port. -/
  inputs : List (Fin n)
  /-- The channel of every output port. -/
  outputs : List (Fin n)

namespace Wiring

variable {n : Nat}

/-- The number of participants: the nodes, a source for every input port and a
sink for every output port. -/
def size (wiring : Wiring n) : Nat :=
  wiring.nodes.length + wiring.inputs.length + wiring.outputs.length

/-- The participants: first the nodes, then the sources, then the sinks. -/
def participants (wiring : Wiring n) (suite : Suite) : List (Participant n) :=
  wiring.nodes.map .node ++
    wiring.inputs.mapIdx (fun port k => .source (.ofValues (suite.inputs.values port) k)) ++
    wiring.outputs.map fun k => .sink (.ofChannel k)

theorem length_participants (wiring : Wiring n) (suite : Suite) :
    (wiring.participants suite).length = wiring.size := by
  simp [participants, size, Nat.add_assoc]

end Wiring

/-- Wired nodes with sources and sinks, and how far they have come. -/
structure Bench (m n : Nat) where
  network : Network m n
  /-- For every output port, how many values are expected. -/
  expected : List Nat
  /-- The number of ticks so far. -/
  ticks : Nat

/-- The budget of ticks when none is given. -/
def defaultMaxTicks : Nat := 1000

/-- What a bench has collected, by port. -/
structure Evaluation where
  outputs : List (Nat × List Int64)
  ticks : Nat
  /-- For every input port, how many values were not taken. -/
  backlog : List (Nat × Nat)
deriving DecidableEq

namespace Bench

variable {m n : Nat}

/-- A bench before its first tick. -/
def ofWiring (wiring : Wiring n) (suite : Suite) (discipline : Discipline) :
    Bench wiring.size n where
  network := .ofMembers discipline
    ⟨(wiring.participants suite).toArray, by simp [wiring.length_participants suite]⟩
    wiring.capacities
  expected := wiring.outputs.mapIdx fun port _ => (suite.outputs.values port).length
  ticks := 0

/-- The nodes, in the order of their tasks. -/
def nodes (bench : Bench m n) : List (Node n) :=
  bench.network.members.toList.filterMap Participant.node?

/-- The sources, in the order of the input ports. -/
def sources (bench : Bench m n) : List (Source n) :=
  bench.network.members.toList.filterMap Participant.source?

/-- The sinks, in the order of the output ports. -/
def sinks (bench : Bench m n) : List (Sink n) :=
  bench.network.members.toList.filterMap Participant.sink?

/-- Whether every sink holds at least as many values as expected. -/
def isComplete (bench : Bench m n) : Bool :=
  (bench.sinks.zip bench.expected).all fun (sink, expected) => expected ≤ sink.results.length

/-- Replaces the program of a node. -/
def load (bench : Bench m n) (task : Fin m) (source : String) : Bench m n :=
  { bench with network := bench.network.load task source }

/-- One tick, which is counted. -/
def tick (bench : Bench m n) : Except Fault (Bench m n) := do
  let (_, network) ← bench.network.tick
  return { bench with network, ticks := bench.ticks + 1 }

/-- Resumes what has been woken.  Begins no step. -/
def settle (bench : Bench m n) : Except Fault (Bench m n) := do
  let (_, network) ← bench.network.settle
  return { bench with network }

/-- Ticks until complete, at most the given number of times. -/
def tickUpTo (bench : Bench m n) : Nat → Except Fault (Bench m n)
  | 0 => .ok bench
  | budget + 1 => if bench.isComplete then .ok bench else do (← bench.tick).tickUpTo budget

/-- Ticks until complete or until the budget is used up, and then settles.
Returns the number of ticks that this took. -/
def run (bench : Bench m n) (budget : Nat) : Except Fault (Nat × Bench m n) := do
  let ended ← bench.tickUpTo budget
  let settled ← ended.settle
  return (ended.ticks - bench.ticks, settled)

/-- What has been collected. -/
def evaluation (bench : Bench m n) : Evaluation where
  outputs := bench.sinks.mapIdx fun port sink => (port, sink.results)
  ticks := bench.ticks
  backlog := bench.sources.mapIdx fun port source => (port, source.backlog)

end Bench

/-- What wired nodes make of a test suite within a budget of ticks. -/
def Wiring.evaluate {n : Nat} (wiring : Wiring n) (suite : Suite) (budget : Nat) :
    Except Fault Evaluation := do
  let (_, bench) ← (Bench.ofWiring wiring suite .lockstep).run budget
  return bench.evaluation

end NodeGrid

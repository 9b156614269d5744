import NodeGrid.Node.Execution

/-!
# Endpoints

The two ends of a network's traffic.  A source sends the values it was given
into a channel, one per step; a sink receives one value per step and keeps them
all.
-/

namespace NodeGrid

/-- Sends its values in order. -/
structure Source (n : Nat) where
  /-- The values that no send has been started for. -/
  values : List Int64
  output : Fin n
  status : Status
  /-- The value whose send waits. -/
  pending : Option Int64
deriving DecidableEq

/-- Keeps what it receives. -/
structure Sink (n : Nat) where
  input : Fin n
  /-- The values received, oldest first. -/
  results : List Int64
  /-- Whether a receive waits. -/
  waiting : Bool
deriving DecidableEq

namespace Source

variable {τ : Type} {n : Nat}

/-- A source before its first step. -/
def ofValues (values : List Int64) (output : Fin n) : Source n where
  values
  output
  status := .idle
  pending := none

/-- The number of values not yet delivered. -/
def backlog (source : Source n) : Nat :=
  source.values.length + source.pending.toList.length

/-- Sends the next value, if there is one.  It is taken from the source at once, also if it has to
wait. -/
def step (source : Source n) (task : τ) (fabric : Fabric τ n) :
    Progress × Source n × Fabric τ n :=
  match source.values with
  | [] => (.settled, { source with status := .idle }, fabric)
  | value :: values =>
    match fabric.send source.output value task with
    | (.delivered, fabric) => (.settled, { source with values, status := .run }, fabric)
    | (.blocked, fabric) =>
      (.pending, { source with values, status := .write, pending := some value }, fabric)

/-- Ends the send that has waited. -/
def resume (source : Source n) (fabric : Fabric τ n) : Source n × Fabric τ n :=
  match source.pending with
  | some value =>
    ({ source with status := .run, pending := none }, fabric.finishSend source.output value)
  | none => (source, fabric)

theorem load_resume (source : Source n) (fabric : Fabric τ n) :
    (source.resume fabric).2.load = fabric.load := by
  unfold resume
  split
  · exact fabric.load_finishSend source.output _
  · rfl

end Source

namespace Sink

variable {τ : Type} {n : Nat}

/-- A sink before its first step. -/
def ofChannel (input : Fin n) : Sink n where
  input
  results := []
  waiting := false

/-- Receives a value. -/
def step (sink : Sink n) (task : τ) (fabric : Fabric τ n) :
    Except Fault (Progress × Sink n × Fabric τ n) := do
  match ← fabric.receive sink.input task with
  | (.received value, fabric) =>
    return (.settled, { sink with results := sink.results ++ [value] }, fabric)
  | (.blocked, fabric) => return (.pending, { sink with waiting := true }, fabric)

/-- Ends the receive that has waited. -/
def resume (sink : Sink n) (fabric : Fabric τ n) : Except Fault (Sink n × Fabric τ n) :=
  if sink.waiting then do
    let (value, fabric) ← fabric.finishReceive sink.input
    return ({ sink with results := sink.results ++ [value], waiting := false }, fabric)
  else
    .ok (sink, fabric)

theorem load_resume {sink after : Sink n} {fabric rest : Fabric τ n}
    (hresume : sink.resume fabric = .ok (after, rest)) : rest.load = fabric.load := by
  unfold resume at hresume
  split at hresume
  · cases hreceive : fabric.finishReceive sink.input with
    | error broken => simp [hreceive, bind, Except.bind] at hresume
    | ok received =>
      simp only [hreceive, bind, Except.bind, pure, Except.pure] at hresume
      cases hresume
      exact Fabric.load_finishReceive hreceive
  · cases hresume
    rfl

end Sink

end NodeGrid

import NodeGrid.Endpoint

/-!
# Participants

What takes part in a network: nodes, sources and sinks.  They share one
contract.  A participant *begins* a step only when no step of its own is
outstanding, and *resumes* an outstanding step after its task has been woken.
On a tick where its step is still outstanding it may *withdraw* it; otherwise it
*stalls*.
-/

namespace NodeGrid

/-- A part of a network with `n` channels. -/
inductive Participant (n : Nat) where
  | node (processor : Node n)
  | source (feed : Source n)
  | sink (store : Sink n)

namespace Participant

variable {τ : Type} {n : Nat}

/-- Begins a step. -/
def step (participant : Participant n) (task : τ) (fabric : Fabric τ n) :
    Except Fault (Progress × Participant n × Fabric τ n) :=
  match participant with
  | .node processor => do
    let (progress, processor, fabric) ← processor.step task fabric
    return (progress, .node processor, fabric)
  | .source feed =>
    let (progress, feed, fabric) := feed.step task fabric
    .ok (progress, .source feed, fabric)
  | .sink store => do
    let (progress, store, fabric) ← store.step task fabric
    return (progress, .sink store, fabric)

/-- Goes on with a step that has been woken. -/
def resume (participant : Participant n) (task : τ) (fabric : Fabric τ n) :
    Except Fault (Progress × Participant n × Fabric τ n) :=
  match participant with
  | .node processor => do
    let (progress, processor, fabric) ← processor.resume task fabric
    return (progress, .node processor, fabric)
  | .source feed =>
    let (feed, fabric) := feed.resume fabric
    .ok (.settled, .source feed, fabric)
  | .sink store => do
    let (store, fabric) ← store.resume fabric
    return (.settled, .sink store, fabric)

/-- Gives up the outstanding step, which only nodes with an abandoned operation
ever do; `none` when it goes on. -/
def withdraw [DecidableEq τ] (participant : Participant n) (task : τ) (fabric : Fabric τ n) :
    Except Fault (Option (Participant n × Fabric τ n)) :=
  match participant with
  | .node processor => do
    let withdrawn ← processor.withdraw task fabric
    return withdrawn.map fun (processor, fabric) => (.node processor, fabric)
  | .source _ | .sink _ => .ok none

/-- Counts a tick on which the step goes on. -/
def stall : Participant n → Participant n
  | .node processor => .node processor.stall
  | .source feed => .source feed
  | .sink store => .sink store

/-- Replaces the program of a node; sources and sinks have none. -/
def load (participant : Participant n) (source : String) : Participant n :=
  match participant with
  | .node processor => .node (processor.load source)
  | .source feed => .source feed
  | .sink store => .sink store

/-- The node, if the participant is one. -/
def node? : Participant n → Option (Node n)
  | .node processor => some processor
  | .source _ | .sink _ => none

/-- The source, if the participant is one. -/
def source? : Participant n → Option (Source n)
  | .source feed => some feed
  | .node _ | .sink _ => none

/-- The sink, if the participant is one. -/
def sink? : Participant n → Option (Sink n)
  | .sink store => some store
  | .node _ | .source _ => none

/-- Counts a pending read, after which a step can come to wait once more. -/
def debt : Participant n → Nat
  | .node processor => processor.debt
  | .source _ | .sink _ => 0

theorem load_resume_le {participant after : Participant n} {task : τ} {fabric rest : Fabric τ n}
    {progress : Progress}
    (hresume : participant.resume task fabric = .ok (progress, after, rest)) :
    rest.load + after.debt ≤ fabric.load + participant.debt := by
  unfold resume at hresume
  split at hresume
  · rename_i processor
    cases hnode : processor.resume task fabric with
    | error broken => simp [hnode, bind, Except.bind] at hresume
    | ok outcome =>
      simp only [hnode, bind, Except.bind, pure, Except.pure] at hresume
      cases hresume
      exact Node.load_resume_le hnode
  · rename_i feed
    cases hresume
    exact Nat.le_of_eq (feed.load_resume fabric)
  · rename_i store
    cases hsink : store.resume fabric with
    | error broken => simp [hsink, bind, Except.bind] at hresume
    | ok outcome =>
      simp only [hsink, bind, Except.bind, pure, Except.pure] at hresume
      cases hresume
      simp [debt, Sink.load_resume hsink]

end Participant

end NodeGrid

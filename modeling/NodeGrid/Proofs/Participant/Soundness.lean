import NodeGrid.Participant
import NodeGrid.Proofs.Node.Soundness

/-!
# Participants that do not fault

Nodes, sources and sinks keep to one contract: a step that begins while nothing
is outstanding, and a step that goes on after its task has been woken, leave the
participant and the fabric sound and the step pending exactly if the task of the
participant is still engaged.
-/

namespace NodeGrid

variable {n : ℕ}

section Endpoints

variable {τ : Type} [Fintype τ] [DecidableEq τ] {fabric : Fabric τ n}
  {users : Fin n → Finset τ} {engaged : τ → Option (Engagement n)} {task : τ}

namespace Source

/-- What the task of the source is engaged in. -/
def engagement (source : Source n) : Option (Engagement n) :=
  source.pending.map fun value => .sending source.output value

omit [Fintype τ] [DecidableEq τ] in
theorem output_step (source : Source n) (task : τ) (fabric : Fabric τ n) :
    (source.step task fabric).2.1.output = source.output := by
  unfold step
  split
  · rfl
  · split <;> rfl

omit [Fintype τ] [DecidableEq τ] in
theorem output_resume (source : Source n) (fabric : Fabric τ n) :
    (source.resume fabric).1.output = source.output := by
  unfold resume
  split <;> rfl

theorem served_step (source : Source n) (huser : task ∈ users source.output)
    (hrest : source.engagement = none)
    (hfabric : fabric.Sound users (Function.update engaged task none)) :
    Served users engaged task (source.step task fabric).1 (source.step task fabric).2.1.engagement
      (source.step task fabric).2.2 := by
  have hpending : source.pending = none := Option.map_eq_none_iff.mp hrest
  unfold step
  cases hvalues : source.values with
  | nil => exact ⟨by simpa [engagement, hpending] using hfabric, by simp [engagement, hpending]⟩
  | cons value values =>
      have hsent := hfabric.send source.output value huser (Function.update_self ..)
      rw [Function.update_idem] at hsent
      obtain ⟨⟨status, rest⟩, hsend⟩ : ∃ outcome,
        fabric.send source.output value task = outcome := ⟨_, rfl⟩
      rw [hsend] at hsent
      simp only [hsend]
      cases status with
      | delivered =>
          exact ⟨by simpa [engagement, hpending] using hsent, by simp [engagement, hpending]⟩
      | blocked => exact ⟨hsent, by simp [engagement]⟩

theorem served_resume {ready : List τ} (source : Source n) (hfabric : fabric.Sound users engaged)
    (hready : fabric.ready = task :: ready) (hengaged : engaged task = source.engagement) :
    Served users engaged task .settled (source.resume (fabric.withReady ready)).1.engagement
      (source.resume (fabric.withReady ready)).2 := by
  have hmem := hfabric.engaged_of_ready task (by simp [hready])
  unfold resume
  cases hpending : source.pending with
  | none => simp [hengaged, engagement, hpending] at hmem
  | some value =>
      have hsending : engaged task = some (.sending source.output value) := by
        rw [hengaged, engagement, hpending, Option.map_some]
      exact ⟨hfabric.finishSend hready hsending, by simp [engagement]⟩

end Source

namespace Sink

/-- What the task of the sink is engaged in. -/
def engagement (sink : Sink n) : Option (Engagement n) :=
  if sink.waiting then some (.receiving sink.input) else none

theorem served_step (sink : Sink n) (huser : task ∈ users sink.input)
    (hrest : sink.engagement = none)
    (hfabric : fabric.Sound users (Function.update engaged task none)) :
    Yields (sink.step task fabric) fun (progress, after, rest) =>
      after.input = sink.input ∧ Served users engaged task progress after.engagement rest := by
  have hwaiting : sink.waiting = false := by simpa [engagement] using hrest
  refine (hfabric.receive sink.input huser (Function.update_self ..)).bind ?_
  rintro ⟨status, rest⟩ hrest
  simp only [Function.update_idem] at hrest
  cases status with
  | received value =>
      refine yields_ok.mpr ⟨rfl, ?_, by simp [engagement, hwaiting]⟩
      simpa [engagement, hwaiting] using hrest
  | blocked => exact yields_ok.mpr ⟨rfl, hrest, by simp [engagement]⟩

theorem served_resume {ready : List τ} (sink : Sink n) (hfabric : fabric.Sound users engaged)
    (hready : fabric.ready = task :: ready) (hengaged : engaged task = sink.engagement) :
    Yields (sink.resume (fabric.withReady ready)) fun (after, rest) =>
      after.input = sink.input ∧ Served users engaged task .settled after.engagement rest := by
  have hmem := hfabric.engaged_of_ready task (by simp [hready])
  have hwaiting : sink.waiting = true := by
    by_contra hnot
    simp [hengaged, engagement, hnot] at hmem
  have hreceiving : engaged task = some (.receiving sink.input) := by
    rw [hengaged, engagement, if_pos hwaiting]
  rw [resume, if_pos hwaiting]
  refine (hfabric.finishReceive hready hreceiving).bind ?_
  rintro ⟨value, rest⟩ hrest
  exact yields_ok.mpr ⟨rfl, hrest, by simp [engagement]⟩

end Sink

end Endpoints

namespace Participant

/-- What the task of the participant is engaged in. -/
def engagement : Participant n → Option (Engagement n)
  | .node processor => processor.engagement
  | .source feed => feed.engagement
  | .sink store => store.engagement

/-- The instructions of a node; sources and sinks have none. -/
def program : Participant n → Program
  | .node processor => processor.program
  | .source _ | .sink _ => []

/-- The channel behind a port of a node; sources and sinks have no ports. -/
def ports : Participant n → Port → Option (Fin n)
  | .node processor => processor.ports
  | .source _ | .sink _ => fun _ => none

/-- The channels that the participant uses, with the program that it has. -/
def Uses : Participant n → Fin n → Prop
  | .node processor => fun k =>
      ∃ instruction ∈ processor.program, ∃ port ∈ instruction.ports, processor.ports port = some k
  | .source feed => fun k => feed.output = k
  | .sink store => fun k => store.input = k

/-- The participant uses only allowed channels.  Only nodes rely on more than
that. -/
def Sound (participant : Participant n) (allowed : Fin n → Prop) : Prop :=
  match participant with
  | .node processor => processor.Sound allowed
  | .source feed => allowed feed.output
  | .sink store => allowed store.input

variable {participant : Participant n} {allowed : Fin n → Prop}

theorem sound_source_iff {feed : Source n} :
    (source feed).Sound allowed ↔ allowed feed.output := Iff.rfl

theorem sound_sink_iff {store : Sink n} : (sink store).Sound allowed ↔ allowed store.input := Iff.rfl

theorem Sound.load (hsound : participant.Sound allowed) {source : String}
    (hallowed : ∀ instruction ∈ (participant.load source).program, ∀ port ∈ instruction.ports,
      ∀ k, participant.ports port = some k → allowed k) :
    (participant.load source).Sound allowed ∧
      (participant.load source).engagement = participant.engagement := by
  cases participant with
  | node processor => exact Node.Sound.load hsound hallowed
  | source feed => exact ⟨hsound, rfl⟩
  | sink store => exact ⟨hsound, rfl⟩

theorem Sound.stall (hsound : participant.Sound allowed) :
    participant.stall.Sound allowed ∧ participant.stall.engagement = participant.engagement := by
  cases participant with
  | node processor => exact ⟨Node.Sound.stall hsound, rfl⟩
  | source feed => exact ⟨hsound, rfl⟩
  | sink store => exact ⟨hsound, rfl⟩

variable {τ : Type} [Fintype τ] [DecidableEq τ] {fabric : Fabric τ n}
  {users : Fin n → Finset τ} {engaged : τ → Option (Engagement n)} {task : τ}

/-- The participant is sound again, and its task is served. -/
def Stops (users : Fin n → Finset τ) (engaged : τ → Option (Engagement n)) (task : τ) :
    Progress × Participant n × Fabric τ n → Prop :=
  fun (progress, participant, fabric) =>
    participant.Sound (task ∈ users ·) ∧ Served users engaged task progress participant.engagement fabric

theorem Sound.step (hsound : participant.Sound (task ∈ users ·)) (hrest : participant.engagement = none)
    (hfabric : fabric.Sound users (Function.update engaged task none)) :
    Yields (participant.step task fabric) (Stops users engaged task) := by
  cases participant with
  | node processor =>
      refine (Node.Sound.step hsound hrest hfabric).bind ?_
      rintro ⟨progress, after, rest⟩ hstops
      exact yields_ok.mpr hstops
  | source feed =>
      refine yields_ok.mpr ⟨?_, feed.served_step hsound hrest hfabric⟩
      exact sound_source_iff.mpr ((feed.output_step task fabric).symm ▸ hsound)
  | sink store =>
      refine (store.served_step hsound hrest hfabric).bind ?_
      rintro ⟨progress, after, rest⟩ ⟨hinput, hserved⟩
      exact yields_ok.mpr ⟨sound_sink_iff.mpr (hinput.symm ▸ hsound), hserved⟩

theorem Sound.resume {ready : List τ} (hsound : participant.Sound (task ∈ users ·))
    (hfabric : fabric.Sound users engaged)
    (hready : fabric.ready = task :: ready) (hengaged : engaged task = participant.engagement) :
    Yields (participant.resume task (fabric.withReady ready)) (Stops users engaged task) := by
  cases participant with
  | node processor =>
      refine (Node.Sound.resume hsound hfabric hready hengaged).bind ?_
      rintro ⟨progress, after, rest⟩ hstops
      exact yields_ok.mpr hstops
  | source feed =>
      refine yields_ok.mpr ⟨?_, feed.served_resume hfabric hready hengaged⟩
      exact sound_source_iff.mpr ((feed.output_resume (fabric.withReady ready)).symm ▸ hsound)
  | sink store =>
      refine (store.served_resume hfabric hready hengaged).bind ?_
      rintro ⟨after, rest⟩ ⟨hinput, hserved⟩
      exact yields_ok.mpr ⟨sound_sink_iff.mpr (hinput.symm ▸ hsound), hserved⟩

/-- A participant that withdraws its step has nothing outstanding any more. -/
theorem Sound.withdraw (hsound : participant.Sound (task ∈ users ·))
    (hfabric : fabric.Sound users engaged) :
    Yields (participant.withdraw task fabric) fun withdrawn => ∀ after rest,
      withdrawn = some (after, rest) → after.Sound (task ∈ users ·) ∧
        after.engagement = none ∧ rest.Sound users (Function.update engaged task none) := by
  cases participant with
  | node processor =>
      refine (Node.Sound.withdraw hsound hfabric).bind ?_
      rintro withdrawn hwithdrawn
      refine yields_ok.mpr ?_
      rintro after rest hsome
      obtain ⟨⟨processor, fabric⟩, hnode, hpair⟩ := Option.map_eq_some_iff.mp hsome
      cases hpair
      exact hwithdrawn processor rest hnode
  | source feed => exact yields_ok.mpr (by simp)
  | sink store => exact yields_ok.mpr (by simp)

end Participant

end NodeGrid

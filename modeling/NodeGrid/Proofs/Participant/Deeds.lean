import NodeGrid.Proofs.Node.Deeds
import NodeGrid.Proofs.Participant.Soundness

/-!
# What a participant does in a step

Nodes, sources and sinks all act on the fabric in the same few ways.  A step that
begins with nothing outstanding asks for a value, offers one or does both
(`Sound.begins_of_step`); a step that goes on ends what its task is engaged in
first (`Sound.resumes_of_resume`); and a step that is given up takes it back
(`Sound.withdraws_of_withdraw`).
-/

namespace NodeGrid

variable {τ : Type} {n : ℕ}

variable {task : τ} {fabric rest : Fabric τ n} {progress : Progress}

namespace Source

/-- The deeds of a source that begins a step. -/
def stepDeeds (source : Source n) (task : τ) (fabric : Fabric τ n) : List (Deed n) :=
  match source.values with
  | [] => []
  | value :: _ => [.send source.output value (fabric.send source.output value task).1]

/-- The deeds of a source whose step goes on. -/
def resumeDeeds (source : Source n) : List (Deed n) :=
  source.pending.toList.map (.finishSend source.output)

theorem offers_step (source : Source n) (task : τ) (fabric : Fabric τ n)
    (hrest : source.engagement = none) :
    fabric.Offers (source.output = ·) task (source.stepDeeds task fabric)
      (source.step task fabric).2.2 (source.step task fabric).2.1.engagement := by
  have hpending : source.pending = none := Option.map_eq_none_iff.mp hrest
  unfold step stepDeeds
  cases source.values with
  | nil =>
      simp only [engagement, hpending, Option.map_none]
      exact .nothing
  | cons value values =>
      obtain ⟨⟨status, rest⟩, hsend⟩ : ∃ outcome,
        fabric.send source.output value task = outcome := ⟨_, rfl⟩
      have hoffers : fabric.Offers (source.output = ·) task _ _ _ := .send rfl hsend
      simp only [hsend]
      cases status with
      | delivered =>
          simp only [engagement, hpending, Option.map_none]
          exact hoffers
      | blocked => exact hoffers

theorem resumes_resume (source : Source n) (task : τ) (fabric : Fabric τ n)
    (hengaged : source.engagement ≠ none) :
    fabric.Resumes (source.output = ·) task source.engagement source.resumeDeeds
      (source.resume fabric).2 (source.resume fabric).1.engagement := by
  cases hpending : source.pending with
  | none => simp [engagement, hpending] at hengaged
  | some value =>
      simp only [resume, resumeDeeds, engagement, hpending, Option.map_some, Option.toList_some,
        List.map_cons, List.map_nil, Option.map_none]
      exact .delivers

end Source

namespace Sink

/-- The deeds of a sink that begins a step. -/
def stepDeeds (sink : Sink n) (task : τ) (fabric : Fabric τ n) : List (Deed n) :=
  following (fabric.receive sink.input task) fun (status, _) => [.receive sink.input status]

/-- The deeds of a sink whose step goes on. -/
def resumeDeeds (sink : Sink n) (fabric : Fabric τ n) : List (Deed n) :=
  if sink.waiting then
    following (fabric.finishReceive sink.input) fun (value, _) => [.finishReceive sink.input value]
  else
    []

variable {sink after : Sink n}

theorem begins_of_step (hrest : sink.engagement = none)
    (hstep : sink.step task fabric = .ok (progress, after, rest)) :
    fabric.Begins (sink.input = ·) task (sink.stepDeeds task fabric) rest after.engagement := by
  have hwaiting : sink.waiting = false := by simpa [engagement] using hrest
  obtain ⟨⟨status, between⟩, hreceive, hpair⟩ := bind_eq_ok.mp hstep
  simp only [stepDeeds, hreceive, following_ok]
  cases status with
  | received value =>
      cases hpair
      simp only [engagement, hwaiting]
      exact .takes rfl hreceive .nothing
  | blocked =>
      cases hpair
      exact .waits rfl hreceive

theorem resumes_of_resume (hengaged : sink.engagement ≠ none)
    (hresume : sink.resume fabric = .ok (after, rest)) :
    fabric.Resumes (sink.input = ·) task sink.engagement (sink.resumeDeeds fabric) rest
      after.engagement := by
  have hwaiting : sink.waiting = true := by
    by_contra hnot
    simp [engagement, hnot] at hengaged
  rw [resume, if_pos hwaiting] at hresume
  obtain ⟨⟨value, between⟩, hfinish, hpair⟩ := bind_eq_ok.mp hresume
  cases hpair
  simp only [resumeDeeds, hwaiting, if_true, hfinish, following_ok, engagement]
  exact .takes hfinish .nothing

theorem input_of_step (hstep : sink.step task fabric = .ok (progress, after, rest)) :
    after.input = sink.input := by
  obtain ⟨⟨status, between⟩, -, hpair⟩ := bind_eq_ok.mp hstep
  cases status <;> cases hpair <;> rfl

theorem input_of_resume (hresume : sink.resume fabric = .ok (after, rest)) :
    after.input = sink.input := by
  unfold resume at hresume
  split at hresume
  · obtain ⟨⟨value, between⟩, -, hpair⟩ := bind_eq_ok.mp hresume
    cases hpair
    rfl
  · cases hresume
    rfl

end Sink

namespace Participant

/-- The deeds of a participant that begins a step. -/
def stepDeeds (participant : Participant n) (task : τ) (fabric : Fabric τ n) : List (Deed n) :=
  match participant with
  | .node processor => processor.stepDeeds task fabric
  | .source feed => feed.stepDeeds task fabric
  | .sink store => store.stepDeeds task fabric

/-- The deeds of a participant whose step goes on. -/
def resumeDeeds (participant : Participant n) (task : τ) (fabric : Fabric τ n) : List (Deed n) :=
  match participant with
  | .node processor => processor.resumeDeeds task fabric
  | .source feed => feed.resumeDeeds
  | .sink store => store.resumeDeeds fabric

/-- The deeds of a participant that gives up its step. -/
def withdrawDeeds : Participant n → List (Deed n)
  | .node processor => processor.withdrawDeeds
  | .source _ | .sink _ => []

/-- The channels that the participant can use at all, whatever its program. -/
def Reaches : Participant n → Fin n → Prop
  | .node processor => fun k => ∃ port, processor.ports port = some k
  | .source feed => fun k => feed.output = k
  | .sink store => fun k => store.input = k

variable {participant after : Participant n} {allowed : Fin n → Prop}

/-- Only nodes give up a step. -/
theorem exists_node_of_withdraw [DecidableEq τ]
    (hwithdraw : participant.withdraw task fabric = .ok (some (after, rest))) :
    ∃ processor next, participant = .node processor ∧ after = .node next ∧
      processor.withdraw task fabric = .ok (some (next, rest)) := by
  cases participant with
  | node processor =>
      obtain ⟨withdrawn, hnode, hmap⟩ := bind_eq_ok.mp hwithdraw
      obtain ⟨⟨next, rest⟩, rfl, hpair⟩ := Option.map_eq_some_iff.mp (Except.ok.inj hmap)
      cases hpair
      exact ⟨processor, next, rfl, rfl, hnode⟩
  | source feed => cases hwithdraw
  | sink store => cases hwithdraw

/-! ## What a participant does -/

theorem Sound.begins_of_step (hsound : participant.Sound allowed)
    (hrest : participant.engagement = none)
    (hstep : participant.step task fabric = .ok (progress, after, rest)) :
    fabric.Begins participant.Reaches task (participant.stepDeeds task fabric) rest
      after.engagement := by
  cases participant with
  | node processor =>
      obtain ⟨hpending, habandoned⟩ := (Node.Sound.engagement_eq_none_iff hsound).mp hrest
      obtain ⟨⟨progress, next, rest⟩, hnode, hpair⟩ := bind_eq_ok.mp hstep
      cases hpair
      exact Node.begins_of_step (fun port k hport => ⟨port, hport⟩) hpending habandoned hnode
  | source feed =>
      cases hstep
      exact .offers (feed.offers_step task fabric hrest)
  | sink store =>
      obtain ⟨⟨progress, next, rest⟩, hsink, hpair⟩ := bind_eq_ok.mp hstep
      cases hpair
      exact Sink.begins_of_step hrest hsink

theorem Sound.resumes_of_resume (hsound : participant.Sound allowed)
    (hengaged : participant.engagement ≠ none)
    (hresume : participant.resume task fabric = .ok (progress, after, rest)) :
    fabric.Resumes participant.Reaches task participant.engagement
      (participant.resumeDeeds task fabric) rest after.engagement := by
  cases participant with
  | node processor =>
      obtain ⟨⟨progress, next, rest⟩, hnode, hpair⟩ := bind_eq_ok.mp hresume
      cases hpair
      exact (Node.resumed_of_resume hnode).resumes (fun port k hport => ⟨port, hport⟩)
        (Node.Sound.not_both hsound) hengaged
  | source feed =>
      cases hresume
      exact feed.resumes_resume task fabric hengaged
  | sink store =>
      obtain ⟨⟨next, rest⟩, hsink, hpair⟩ := bind_eq_ok.mp hresume
      cases hpair
      exact Sink.resumes_of_resume hengaged hsink

/-- Whoever withdraws a step takes back what it is engaged in. -/
theorem Sound.withdraws_of_withdraw [DecidableEq τ] (hsound : participant.Sound allowed)
    (hwithdraw : participant.withdraw task fabric = .ok (some (after, rest))) :
    fabric.Withdraws task participant.engagement participant.withdrawDeeds rest := by
  obtain ⟨processor, next, rfl, rfl, hnode⟩ := exists_node_of_withdraw hwithdraw
  exact (Node.withdrawn_of_withdraw hnode).withdraws (Node.Sound.not_both hsound)

/-! ## What a participant can reach -/

theorem reaches_of_step (hstep : participant.step task fabric = .ok (progress, after, rest)) :
    after.Reaches = participant.Reaches := by
  cases participant with
  | node processor =>
      obtain ⟨⟨progress, next, rest⟩, hnode, hpair⟩ := bind_eq_ok.mp hstep
      cases hpair
      simp only [Reaches, Node.ports_of_step hnode]
  | source feed =>
      cases hstep
      funext k
      exact congrArg (· = k) (feed.output_step task fabric)
  | sink store =>
      obtain ⟨⟨progress, next, rest⟩, hsink, hpair⟩ := bind_eq_ok.mp hstep
      cases hpair
      simp only [Reaches, Sink.input_of_step hsink]

theorem reaches_of_resume (hresume : participant.resume task fabric = .ok (progress, after, rest)) :
    after.Reaches = participant.Reaches := by
  cases participant with
  | node processor =>
      obtain ⟨⟨progress, next, rest⟩, hnode, hpair⟩ := bind_eq_ok.mp hresume
      cases hpair
      simp only [Reaches, (Node.resumed_of_resume hnode).ports_eq]
  | source feed =>
      cases hresume
      funext k
      exact congrArg (· = k) (feed.output_resume fabric)
  | sink store =>
      obtain ⟨⟨next, rest⟩, hsink, hpair⟩ := bind_eq_ok.mp hresume
      cases hpair
      simp only [Reaches, Sink.input_of_resume hsink]

theorem reaches_of_withdraw [DecidableEq τ]
    (hwithdraw : participant.withdraw task fabric = .ok (some (after, rest))) :
    after.Reaches = participant.Reaches := by
  obtain ⟨processor, next, rfl, rfl, hnode⟩ := exists_node_of_withdraw hwithdraw
  simp only [Reaches, (Node.withdrawn_of_withdraw hnode).ports_eq]

theorem reaches_of_uses {k : Fin n} (huses : participant.Uses k) : participant.Reaches k := by
  cases participant with
  | node processor =>
      obtain ⟨instruction, -, port, -, hport⟩ := huses
      exact ⟨port, hport⟩
  | source feed => exact huses
  | sink store => exact huses

@[simp] theorem reaches_stall : participant.stall.Reaches = participant.Reaches := by
  cases participant <;> rfl

@[simp] theorem reaches_load (source : String) :
    (participant.load source).Reaches = participant.Reaches := by
  cases participant <;> rfl

end Participant

end NodeGrid

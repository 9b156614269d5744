import NodeGrid.Proofs.Network.Trace

/-!
# What never comes back

Along a path of a network, every member goes through changes of a few kinds
(`Path.changes`), so what each of these changes keeps is kept by the path.

Whatever happens in a network, with whatever programs, a member stays what it is: a
node, a source or a sink.  A source never has more left to send than before, and a sink
only adds to what it holds (`Participant.Ages`).  Each change of a participant leaves it
older in this sense, so every path of a network does (`Path.ages`).  Nothing is asked of
the network for that; it need not even be sound.
-/

namespace NodeGrid

open Relation (ReflTransGen)

variable {n : ℕ}

/-! ## Participants -/

/-- The second participant is the first one at the same or a later time. -/
inductive Participant.Ages : Participant n → Participant n → Prop where
  | node {processor later : Node n} : Ages (.node processor) (.node later)
  | source {feed later : Source n} (hbacklog : later.backlog ≤ feed.backlog) :
      Ages (.source feed) (.source later)
  | sink {store later : Sink n} (hresults : store.results <+: later.results) :
      Ages (.sink store) (.sink later)

section Endpoints

variable {τ : Type} {task : τ} {fabric rest : Fabric τ n} {progress : Progress}

theorem Source.backlog_step_le (feed : Source n) (task : τ) (fabric : Fabric τ n) :
    (feed.step task fabric).2.1.backlog ≤ feed.backlog := by
  unfold step backlog
  cases hvalues : feed.values with
  | nil => simp
  | cons value values =>
      rcases hsend : fabric.send feed.output value task with ⟨status, between⟩
      cases status <;> simp [hsend]

theorem Source.backlog_resume_le (feed : Source n) (fabric : Fabric τ n) :
    (feed.resume fabric).1.backlog ≤ feed.backlog := by
  unfold resume backlog
  cases hpending : feed.pending with
  | none => simp [hpending]
  | some value => simp

variable {store after : Sink n}

theorem Sink.results_prefix_step (hstep : store.step task fabric = .ok (progress, after, rest)) :
    store.results <+: after.results := by
  obtain ⟨⟨status, between⟩, -, hpair⟩ := bind_eq_ok.mp hstep
  cases status with
  | received value =>
      cases hpair
      exact List.prefix_append _ _
  | blocked =>
      cases hpair
      exact List.prefix_refl _

theorem Sink.results_prefix_resume (hresume : store.resume fabric = .ok (after, rest)) :
    store.results <+: after.results := by
  unfold resume at hresume
  split at hresume
  · obtain ⟨⟨value, between⟩, -, hpair⟩ := bind_eq_ok.mp hresume
    cases hpair
    exact List.prefix_append _ _
  · cases hresume
    exact List.prefix_refl _

end Endpoints

namespace Participant

variable {τ : Type} {task : τ} {fabric rest : Fabric τ n} {progress : Progress}
  {participant later after : Participant n}

theorem Ages.refl (participant : Participant n) : participant.Ages participant := by
  cases participant with
  | node processor => exact .node
  | source feed => exact .source (Nat.le_refl _)
  | sink store => exact .sink (List.prefix_refl _)

theorem Ages.trans (hfirst : participant.Ages later) (hsecond : later.Ages after) :
    participant.Ages after := by
  cases hfirst with
  | node =>
      cases hsecond with
      | node => exact .node
  | source hbacklog =>
      cases hsecond with
      | source hless => exact .source (hless.trans hbacklog)
  | sink hresults =>
      cases hsecond with
      | sink hmore => exact .sink (hresults.trans hmore)

theorem ages_of_step (hstep : participant.step task fabric = .ok (progress, after, rest)) :
    participant.Ages after := by
  cases participant with
  | node processor =>
      obtain ⟨⟨_, next, _⟩, -, hpair⟩ := bind_eq_ok.mp hstep
      cases hpair
      exact .node
  | source feed =>
      cases hstep
      exact .source (feed.backlog_step_le task fabric)
  | sink store =>
      obtain ⟨⟨_, next, _⟩, hsink, hpair⟩ := bind_eq_ok.mp hstep
      cases hpair
      exact .sink (Sink.results_prefix_step hsink)

theorem ages_of_resume (hresume : participant.resume task fabric = .ok (progress, after, rest)) :
    participant.Ages after := by
  cases participant with
  | node processor =>
      obtain ⟨⟨_, next, _⟩, -, hpair⟩ := bind_eq_ok.mp hresume
      cases hpair
      exact .node
  | source feed =>
      cases hresume
      exact .source (feed.backlog_resume_le fabric)
  | sink store =>
      obtain ⟨⟨next, _⟩, hsink, hpair⟩ := bind_eq_ok.mp hresume
      cases hpair
      exact .sink (Sink.results_prefix_resume hsink)

theorem ages_of_withdraw [DecidableEq τ]
    (hwithdraw : participant.withdraw task fabric = .ok (some (after, rest))) :
    participant.Ages after := by
  obtain ⟨processor, next, rfl, rfl, -⟩ := exists_node_of_withdraw hwithdraw
  exact .node

theorem ages_stall (participant : Participant n) : participant.Ages participant.stall := by
  cases participant with
  | node processor => exact .node
  | source feed => exact .refl _
  | sink store => exact .refl _

theorem ages_load (participant : Participant n) (source : String) :
    participant.Ages (participant.load source) := by
  cases participant with
  | node processor => exact .node
  | source feed => exact .refl _
  | sink store => exact .refl _

/-- What can become of a participant at once, among `m` participants. -/
inductive Changes (m : ℕ) : Participant n → Participant n → Prop where
  | step {participant after : Participant n} {task : Fin m} {fabric rest : Fabric (Fin m) n}
      {progress : Progress} (hstep : participant.step task fabric = .ok (progress, after, rest)) :
      Changes m participant after
  | resume {participant after : Participant n} {task : Fin m} {fabric rest : Fabric (Fin m) n}
      {progress : Progress}
      (hresume : participant.resume task fabric = .ok (progress, after, rest)) :
      Changes m participant after
  | withdraw {participant after : Participant n} {task : Fin m} {fabric rest : Fabric (Fin m) n}
      (hwithdraw : participant.withdraw task fabric = .ok (some (after, rest))) :
      Changes m participant after
  | stall (participant : Participant n) : Changes m participant participant.stall
  | load (participant : Participant n) (source : String) :
      Changes m participant (participant.load source)

theorem Changes.ages {m : ℕ} (hchanges : participant.Changes m later) :
    participant.Ages later := by
  cases hchanges with
  | step hstep => exact ages_of_step hstep
  | resume hresume => exact ages_of_resume hresume
  | withdraw hwithdraw => exact ages_of_withdraw hwithdraw
  | stall => exact ages_stall _
  | load source => exact ages_load _ source

theorem ages_of_changes {m : ℕ} (hchanges : ReflTransGen (Changes m) participant later) :
    participant.Ages later := by
  induction hchanges with
  | refl => exact .refl _
  | tail _ hlast ih => exact ih.trans hlast.ages

theorem Ages.exists_node {node : Node n} (hages : (Participant.node node).Ages later) :
    ∃ next, later = .node next := by
  cases hages with
  | node => exact ⟨_, rfl⟩

/-- The sinks among two participants of which one is the other at a later time. -/
theorem Ages.rel_sink? (hages : participant.Ages later) :
    Option.Rel (fun store last => store.results <+: last.results) participant.sink?
      later.sink? := by
  cases hages with
  | node => exact .none
  | source hbacklog => exact .none
  | sink hresults => exact .some hresults

/-- The sources among two participants of which one is the other at a later time. -/
theorem Ages.rel_source? (hages : participant.Ages later) :
    Option.Rel (fun feed last => last.backlog ≤ feed.backlog) participant.source?
      later.source? := by
  cases hages with
  | node => exact .none
  | source hbacklog => exact .some hbacklog
  | sink hresults => exact .none

end Participant

/-! ## Networks -/

namespace Network

variable {m : ℕ} {network next : Network m n} {loads : Fin m → Prop} {first second : Stage m}
  {log : Log (Fin m) n}

/-- Only the member that is put back can have changed. -/
theorem changes_put {task : Fin m} {member : Participant n} {inFlight : Bool}
    {fabric : Fabric (Fin m) n} (hchanges : (network.member task).Changes m member)
    (other : Fin m) : ReflTransGen (Participant.Changes m) (network.member other)
      ((network.put task member inFlight fabric).member other) := by
  by_cases hother : other = task
  · subst hother
    rw [member_put_self]
    exact .single hchanges
  · rw [member_put_of_ne hother]

theorem Step.changes (hstep : Step loads first network log second next) (task : Fin m) :
    ReflTransGen (Participant.Changes m) (network.member task) (next.member task) := by
  cases hstep with
  | begin hidle hmember => exact changes_put (.step hmember) task
  | withdraw hpending hmember => exact changes_put (.withdraw hmember) task
  | stall hpending => exact changes_put (.stall _) task
  | resume hstages hready hmember => exact changes_put (.resume hmember) task
  | turn hturn => exact .refl
  | @load _ other source hload =>
      by_cases hother : task = other
      · subst hother
        rw [member_load_self]
        exact .single (.load _ source)
      · rw [member_load_of_ne hother]

/-- Every member goes from one change to the next. -/
theorem Path.changes (hpath : Path loads first network log second next) (task : Fin m) :
    ReflTransGen (Participant.Changes m) (network.member task) (next.member task) := by
  induction hpath with
  | nil => exact .refl
  | cons hstep hrest ih => exact (hstep.changes task).trans ih

theorem Path.ages (hpath : Path loads first network log second next) (task : Fin m) :
    (network.member task).Ages (next.member task) :=
  Participant.ages_of_changes (hpath.changes task)

/-- A node remains a node, with whatever program. -/
theorem Path.exists_node (hpath : Path loads first network log second next) {task : Fin m}
    (hnode : ∃ node, network.member task = .node node) : ∃ node, next.member task = .node node := by
  obtain ⟨node, hmember⟩ := hnode
  exact (hmember ▸ hpath.ages task).exists_node

/-- The results of a sink only grow at their end. -/
theorem Path.results_prefix (hpath : Path loads first network log second next) (task : Fin m) :
    Option.Rel (fun sink last => sink.results <+: last.results) (network.member task).sink?
      (next.member task).sink? :=
  (hpath.ages task).rel_sink?

end Network

end NodeGrid

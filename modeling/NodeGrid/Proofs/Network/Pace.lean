import NodeGrid.Proofs.Network.Cycles

/-!
# What a tick in lockstep gets done

In lockstep, a member that is not in the middle of a step begins one in every tick, and
one that is goes on with it.  Either way it has completed one step more at the end of the
tick, or is in the middle of that step (`Participant.Pace`).  Beginning a step brings this
about (`pace_of_step`), a step that is outstanding when the tick begins already stands
like this (`Sound.pace_stall`), and going on keeps it (`Pace.resume`); so it holds of
every member that has abandoned nothing (`Sound.pace_of_lockstep`).
-/

namespace NodeGrid

variable {m n : ℕ}

/-- The second participant has completed one step more than the first one, or it is in the
middle of that step.  A source without values completes no more steps. -/
inductive Participant.Pace : Participant n → Participant n → Prop where
  | node {before after : Node n}
      (hbegun : before.program ≠ [] → after.begun = before.executed + 1) :
      Pace (.node before) (.node after)
  | source {before after : Source n} (hleft : after.values.length = before.backlog - 1) :
      Pace (.source before) (.source after)
  | sink {before after : Sink n}
      (htaken : after.results.length + after.waiting.toNat = before.results.length + 1) :
      Pace (.sink before) (.sink after)

namespace Participant

variable {τ : Type} {task : τ} {fabric rest : Fabric τ n} {progress : Progress}
  {participant between after : Participant n} {allowed : Fin n → Prop}

theorem pace_of_step (hsound : participant.Sound allowed) (hidle : participant.engagement = none)
    (hstep : participant.step task fabric = .ok (progress, after, rest)) :
    participant.Pace after := by
  cases participant with
  | node processor =>
      obtain ⟨⟨progress, next, rest⟩, hnode, hpair⟩ := bind_eq_ok.mp hstep
      cases hpair
      have hpending := ((Node.Sound.engagement_eq_none_iff hsound).mp hidle).1
      -- without a program the step is over before it began, and is not counted
      by_cases hprogram : processor.program = []
      · obtain ⟨hstall, -⟩ := Node.step_of_program_nil hprogram task fabric
        rw [hnode] at hstall
        cases hstall
        exact .node fun hne => absurd hprogram hne
      · exact .node fun _ => (Node.ran_of_step hprogram hpending hnode).begun_eq
  | source feed =>
      cases hstep
      have hpending : feed.pending = none := Option.map_eq_none_iff.mp hidle
      refine .source ?_
      change (feed.step task fabric).2.1.values.length = feed.backlog - 1
      -- the value is gone from the list whether it is taken at once or not
      unfold Source.step Source.backlog
      cases hvalues : feed.values with
      | nil => simp [hpending]
      | cons value values =>
          obtain ⟨⟨status, rest⟩, hsend⟩ : ∃ outcome,
            fabric.send feed.output value task = outcome := ⟨_, rfl⟩
          simp only [hsend]
          cases status <;> simp [hpending]
  | sink store =>
      obtain ⟨⟨progress, next, rest⟩, hsink, hpair⟩ := bind_eq_ok.mp hstep
      cases hpair
      -- a sink that is idle asks for one value, and has it now or waits for it
      have hwaiting : store.waiting = false := by simpa [engagement, Sink.engagement] using hidle
      obtain ⟨⟨status, between⟩, -, hreturn⟩ := bind_eq_ok.mp hsink
      cases status with
      | received value =>
          cases hreturn
          exact .sink (by simp [hwaiting])
      | blocked =>
          cases hreturn
          exact .sink rfl

/-- A participant that is in the middle of a step. -/
theorem Sound.pace_stall (hsound : participant.Sound allowed)
    (hengaged : participant.engagement ≠ none)
    (hspares : ∀ processor, participant = .node processor → processor.abandoned = none) :
    participant.Pace participant.stall := by
  cases participant with
  | node processor =>
      have hpending : processor.pending ≠ none := fun hnone =>
        hengaged (processor.engagement_eq_none hnone (hspares processor rfl))
      exact .node fun _ => processor.begun_of_pending hpending
  | source feed =>
      obtain ⟨value, hpending⟩ := Option.ne_none_iff_exists'.mp
        fun hnone : feed.pending = none => hengaged (Option.map_eq_none_iff.mpr hnone)
      exact .source (by simp [Source.backlog, hpending])
  | sink store =>
      have hwaiting : store.waiting = true := by
        by_contra hnot
        exact hengaged (if_neg hnot)
      exact .sink (by simp [hwaiting])

/-- Going on with a step neither begins nor ends another one. -/
theorem Pace.resume (hpace : participant.Pace between)
    (hresume : between.resume task fabric = .ok (progress, after, rest)) :
    participant.Pace after := by
  cases hpace with
  | node hbegun =>
      obtain ⟨⟨progress, next, rest⟩, hnode, hpair⟩ := bind_eq_ok.mp hresume
      cases hpair
      exact .node fun hprogram => (Node.cycles_of_resume hnode).2.trans (hbegun hprogram)
  | @source before now hleft =>
      cases hresume
      -- a source that goes on has nothing left to take from its list
      have hvalues : (now.resume fabric).1.values = now.values := by
        unfold Source.resume
        split <;> rfl
      exact .source ((congrArg List.length hvalues).trans hleft)
  | @sink before now htaken =>
      obtain ⟨⟨next, rest⟩, hsink, hpair⟩ := bind_eq_ok.mp hresume
      cases hpair
      -- the value that comes in takes the place of the one that was waited for
      refine .sink (Eq.trans ?_ htaken)
      unfold Sink.resume at hsink
      split at hsink
      · rename_i hwaiting
        obtain ⟨⟨value, between⟩, -, hreturn⟩ := bind_eq_ok.mp hsink
        cases hreturn
        simp [hwaiting]
      · cases hsink
        rfl

end Participant

namespace Network

variable {network next last : Network m n} {users : Fin n → Finset (Fin m)} {task : Fin m}
  {participant : Participant n} {settled : ℕ}

theorem Drains.pace (hdrains : network.Drains next)
    (hpace : participant.Pace (network.member task)) : participant.Pace (next.member task) := by
  induction hdrains with
  | refl network => exact hpace
  | resume hresume hrest ih =>
      obtain ⟨other, ready, progress, member, fabric, -, hmember, -, rfl⟩ :=
        resumeNext_eq_some_iff.mp hresume
      refine ih ?_
      by_cases hother : task = other
      · subst hother
        rw [member_put_self]
        exact hpace.resume hmember
      · rwa [member_put_of_ne hother]

/-- A member that has abandoned nothing has nothing to give up. -/
theorem release_of_spares
    (hspares : ∀ node, network.member task = .node node → node.abandoned = none) :
    network.release task = .ok (if network.isPending task then none else some network) := by
  unfold release
  by_cases hpending : network.isPending task = true
  · rw [if_pos hpending, if_pos hpending]
    cases hmember : network.member task with
    | node processor =>
        have hwithdraw : processor.withdraw task network.fabric = .ok none := by
          rw [Node.withdraw, hspares processor hmember]
          rfl
        rw [Participant.withdraw, hwithdraw]
        rfl
    | source feed => rfl
    | sink store => rfl
  · rw [if_neg hpending, if_neg hpending]

theorem Sound.pace_of_visit (hsound : network.Sound users)
    (hspares : ∀ node, network.member task = .node node → node.abandoned = none)
    (hvisit : network.visit task = .ok (settled, next)) :
    (network.member task).Pace (next.member task) := by
  -- nothing is abandoned, so there is nothing to withdraw
  have hrelease := release_of_spares hspares
  rcases visit_cases hvisit with ⟨released, hreleased, hbegin⟩ | ⟨-, hpending, rfl⟩
  · rw [hrelease] at hreleased
    by_cases hpending : network.isPending task = true
    · rw [if_pos hpending] at hreleased
      cases hreleased
    · rw [if_neg hpending] at hreleased
      cases hreleased
      obtain ⟨-, hidle⟩ : network.Sound users ∧ network.engaged task = none :=
        (hsound.release task).of_ok (hrelease.trans (congrArg _ (if_neg hpending)))
      obtain ⟨⟨progress, member, fabric⟩, hstep, hnext⟩ := bind_eq_ok.mp hbegin
      have hpace := Participant.pace_of_step (hsound.members task) hidle hstep
      cases progress <;> cases hnext <;> rwa [member_put_self]
  · rw [member_put_self]
    refine (hsound.members task).pace_stall ?_ hspares
    rw [hsound.inFlight task] at hpending
    exact Option.isSome_iff_ne_none.mp hpending

/-- In lockstep, a member completes one step more in a tick, or is left in the middle of
it. -/
theorem Sound.pace_of_lockstep (hsound : network.Sound users)
    (hdiscipline : network.discipline = .lockstep)
    (hspares : ∀ node, network.member task = .node node → node.abandoned = none)
    (htick : network.tick = .ok (settled, last)) :
    (network.member task).Pace (last.member task) := by
  obtain ⟨begun, visited, resumed, hvisit, hsettle⟩ := parts_of_lockstep hdiscipline htick
  obtain ⟨before, first, between, hattends⟩ := exists_attends hvisit task
  obtain ⟨hbefore, -⟩ := hattends.sound hsound
  rw [← hattends.member_before] at hspares ⊢
  refine (drains_of_settle hsettle).pace ?_
  rw [hattends.member_last]
  exact hbefore.pace_of_visit hspares hattends.visit_eq

end Network

end NodeGrid

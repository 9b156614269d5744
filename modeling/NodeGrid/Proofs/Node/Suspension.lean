import NodeGrid.Proofs.Node.Interpretation

/-!
# Nodes that are suspended

What can happen to a node on any fabric, consistent or not, is one of its `Acts`.  All
of them keep what a scheduler relies on: a node whose step is not marked as being in
flight waits for nothing (`Node.Steady`), so that a step begins only when the one before
is over.  They also keep the status of the node what it should be
(`Acts.status_eq`).

From the moment in which it gets a program, a node first ends what it had outstanding
and then runs the program by itself (`Node.Since`), whatever happens to it
(`Since.acts`).  So it does what the interpreter does (`Since.interprets`).
-/

namespace NodeGrid

variable {n : ℕ}

/-! ## The status of a node -/

/-- The status that a node should have. -/
def Node.dueStatus (node : Node n) : Status :=
  match node.pending with
  | some (.read _) => .read
  | some (.write _ _) => .write
  | none => if node.executed = 0 then .idle else .run

theorem Node.status_of_finish {node : Node n} (target : Option ℕ) (hpending : node.pending = none) :
    (node.finish target).status = (node.finish target).dueStatus := by
  simp [finish, dueStatus, hpending]

/-- If the step is over, the node has the status that it should have. -/
def Pause.ShowsStatus : Pause n → Prop
  | .settled node => node.status = node.dueStatus
  | .writing _ _ _ => True

/-- Unless it asks for a value, the demand shows the status of its pause. -/
def Demand.ShowsStatus : Demand n → Prop
  | .paused pause => pause.ShowsStatus
  | .reading _ _ => True

namespace Node

variable {node : Node n}

theorem showsStatus_pauseAfterRead {value : Int64} {pause : Pause n} (hpending : node.pending = none)
    (hpause : node.pauseAfterRead value = .ok pause) : pause.ShowsStatus := by
  obtain ⟨acc, target, rfl⟩ | ⟨_, port, -, -, rfl⟩ := pauseAfterRead_eq_ok hpause
  · exact status_of_finish target hpending
  · exact trivial

theorem showsStatus_demandExecute {demand : Demand n} (hpending : node.pending = none)
    (hdemand : node.demandExecute = .ok demand) : demand.ShowsStatus := by
  obtain ⟨acc, bak, target, rfl⟩ | ⟨value, pause, hpause, rfl⟩ | ⟨_, port, -, -, rfl⟩ :=
    demandExecute_eq_ok hdemand
  · exact status_of_finish target hpending
  · exact showsStatus_pauseAfterRead hpending hpause
  · exact trivial

theorem showsStatus_demand {demand : Demand n} (hstatus : node.status = node.dueStatus)
    (hpending : node.pending = none) (hdemand : node.demand = .ok demand) :
    demand.ShowsStatus := by
  rw [demand_eq] at hdemand
  split at hdemand
  -- a node without instructions completes none
  · cases hdemand
    exact hstatus
  · have hready : pending { node.stall with ip := node.nextIp } = none := hpending
    exact showsStatus_demandExecute hready hdemand

end Node

section Served

variable {τ : Type} {task : τ} {fabric rest : Fabric τ n} {deeds : List (Deed n)} {after : Node n}

theorem Pause.Served.status_eq {pause : Pause n} (hserved : pause.Served task fabric deeds after rest)
    (hstatus : pause.ShowsStatus) (hpending : pause.node.pending = none) :
    after.status = after.dueStatus := by
  cases hserved with
  | settled => exact hstatus
  | delivered hport hsend => exact Node.status_of_finish none hpending
  | blocked hport hsend => rfl

theorem Demand.Served.status_eq {demand : Demand n}
    (hserved : demand.Served task fabric deeds after rest) (hstatus : demand.ShowsStatus)
    (hpending : demand.node.pending = none) : after.status = after.dueStatus := by
  cases hserved with
  | paused hpaused => exact hpaused.status_eq hstatus hpending
  | blocked hport hreceive => rfl
  | received hport hreceive hpause hpaused =>
      exact hpaused.status_eq (Node.showsStatus_pauseAfterRead hpending hpause)
        ((Node.continues_pauseAfterRead hpause).pending_eq.trans hpending)

end Served

/-! ## What can happen to a node -/

namespace Node

/-- What can happen to a node, with its deeds and with the marks of its step being in
flight before and after. -/
inductive Acts {τ : Type} [DecidableEq τ] (task : τ) :
    Node n → Bool → List (Deed n) → Node n → Bool → Prop where
  | begins {node after : Node n} {fabric rest : Fabric τ n} {progress : Progress}
      (hstep : node.step task fabric = .ok (progress, after, rest)) :
      Acts task node false (.begin :: node.stepDeeds task fabric) after (progress = .pending)
  | resumes {node after : Node n} {inFlight : Bool} {fabric rest : Fabric τ n}
      {progress : Progress} (hresume : node.resume task fabric = .ok (progress, after, rest)) :
      Acts task node inFlight (node.resumeDeeds task fabric) after
        (progress = .pending && inFlight)
  | withdraws {node after : Node n} {fabric rest : Fabric τ n}
      (hwithdraw : node.withdraw task fabric = .ok (some (after, rest))) :
      Acts task node true node.withdrawDeeds after false
  | stalls {node : Node n} : Acts task node true [] node.stall true
  | rests {node : Node n} {inFlight : Bool} : Acts task node inFlight [] node inFlight

/-- A node with no step in flight waits for nothing, and no node waits for two things. -/
structure Steady (node : Node n) (inFlight : Bool) : Prop where
  idle : inFlight = false → node.pending = none ∧ node.abandoned = none
  not_both : node.pending = none ∨ node.abandoned = none

end Node

section Served

variable {τ : Type} {task : τ} {fabric rest : Fabric τ n} {after : Node n}

/-- A step that is over leaves nothing outstanding. -/
theorem Pause.pending_of_serve {pause : Pause n}
    (hserve : pause.serve task fabric = .ok (.settled, after, rest)) :
    after.pending = pause.node.pending := by
  cases pause with
  | settled node =>
      cases hserve
      rfl
  | writing port value node =>
      obtain ⟨k, -, hsent⟩ := bind_eq_ok.mp hserve
      obtain ⟨⟨status, next⟩, hsend⟩ : ∃ outcome, fabric.send k value task = outcome := ⟨_, rfl⟩
      simp only [hsend] at hsent
      cases status with
      | delivered =>
          cases hsent
          rfl
      | blocked => cases hsent

theorem Demand.pending_of_serve {demand : Demand n}
    (hserve : demand.serve task fabric = .ok (.settled, after, rest)) :
    after.pending = demand.node.pending := by
  cases demand with
  | paused pause => exact Pause.pending_of_serve hserve
  | reading port node =>
      obtain ⟨k, -, hasked⟩ := bind_eq_ok.mp hserve
      obtain ⟨⟨status, between⟩, -, hreceived⟩ := bind_eq_ok.mp hasked
      cases status with
      | blocked => cases hreceived
      | received value =>
          obtain ⟨pause, hpause, hpaused⟩ := bind_eq_ok.mp hreceived
          exact (Pause.pending_of_serve hpaused).trans
            (Node.continues_pauseAfterRead hpause).pending_eq

theorem Pause.Served.abandoned_eq {pause : Pause n} {deeds : List (Deed n)}
    (hserved : pause.Served task fabric deeds after rest) :
    after.abandoned = pause.node.abandoned := by
  cases hserved <;> rfl

theorem Demand.Served.abandoned_eq {demand : Demand n} {deeds : List (Deed n)}
    (hserved : demand.Served task fabric deeds after rest) :
    after.abandoned = demand.node.abandoned := by
  cases hserved with
  | paused hpaused => exact hpaused.abandoned_eq
  | blocked hport hreceive => rfl
  | received hport hreceive hpause hpaused =>
      exact hpaused.abandoned_eq.trans (Node.continues_pauseAfterRead hpause).abandoned_eq

end Served

namespace Node

variable {τ : Type} {task : τ} {start node after : Node n} {inFlight flag : Bool}
  {deeds before : List (Deed n)} {fabric rest : Fabric τ n} {progress : Progress}

theorem pending_of_step (hpending : node.pending = none)
    (hstep : node.step task fabric = .ok (.settled, after, rest)) : after.pending = none := by
  rw [step_eq_serve] at hstep
  obtain ⟨demand, hdemand, hserve⟩ := bind_eq_ok.mp hstep
  rw [Demand.pending_of_serve hserve, (continues_demand hdemand).pending_eq, hpending]

theorem pending_of_resume (hresume : node.resume task fabric = .ok (.settled, after, rest)) :
    after.pending = none := by
  cases hpending : node.pending with
  | none =>
      have hresumed := resumed_of_resume hresume
      generalize node.resumeDeeds task fabric = deeds at hresumed
      cases hresumed with
      | received hother hport hfinish hpause hserved => simp [hpending] at hother
      | delivered hother hport => rfl
      -- what was abandoned ends without touching what is pending
      | _ => exact hpending
  | some operation =>
      cases operation with
      | read port =>
          obtain ⟨value, pause, between, hpause, hserve⟩ :=
            exists_pause_of_resume _ _ _ hpending hresume
          exact (Pause.pending_of_serve hserve).trans (continues_pauseAfterRead hpause).pending_eq
      | write port value =>
          simp only [resume, hpending] at hresume
          obtain ⟨k, -, hresume⟩ := bind_eq_ok.mp hresume
          cases hresume
          rfl

theorem Steady.step (hsteady : node.Steady false)
    (hstep : node.step task fabric = .ok (progress, after, rest)) :
    after.Steady (progress = .pending) := by
  obtain ⟨hpending, habandoned⟩ := hsteady.idle rfl
  obtain ⟨demand, hdemand, hserved⟩ := served_of_step hstep
  have hnone : after.abandoned = none := by
    rw [hserved.abandoned_eq, (continues_demand hdemand).abandoned_eq, habandoned]
  refine ⟨fun hsettled => ?_, Or.inr hnone⟩
  cases progress with
  | settled => exact ⟨pending_of_step hpending hstep, hnone⟩
  | pending => simp at hsettled

theorem Steady.resume (hsteady : node.Steady inFlight)
    (hresume : node.resume task fabric = .ok (progress, after, rest)) :
    after.Steady (progress = .pending && inFlight) := by
  have hnone : after.abandoned = none := by
    have hresumed := resumed_of_resume hresume
    generalize node.resumeDeeds task fabric = deeds at hresumed
    cases hresumed with
    | received hpending hport hfinish hpause hserved =>
        have habandoned : node.abandoned = none := by simpa [hpending] using hsteady.not_both
        rw [hserved.abandoned_eq, (continues_pauseAfterRead hpause).abandoned_eq, habandoned]
    | delivered hpending hport => simpa [hpending] using hsteady.not_both
    | dropped _ _ _ _ => rfl
    | late _ _ _ => rfl
    | nothing _ habandoned => exact habandoned
  refine ⟨fun hsettled => ⟨?_, hnone⟩, Or.inr hnone⟩
  cases progress with
  | settled => exact pending_of_resume hresume
  | pending =>
      -- a node that waited for nothing is not resumed into waiting
      obtain ⟨hpending, habandoned⟩ := hsteady.idle (by simpa using hsettled)
      simp [Node.resume, finishAbandoned, hpending, habandoned] at hresume

theorem Steady.acts [DecidableEq τ] (hsteady : node.Steady inFlight)
    (hacts : node.Acts task inFlight deeds after flag) : after.Steady flag := by
  cases hacts with
  | begins hstep => exact hsteady.step hstep
  | resumes hresume => exact hsteady.resume hresume
  | stalls => exact ⟨nofun, hsteady.not_both⟩
  | rests => exact hsteady
  | withdraws hwithdraw =>
      have hwithdrawn := withdrawn_of_withdraw hwithdraw
      generalize node.withdrawDeeds = deeds at hwithdrawn
      cases hwithdrawn with
      | read habandoned hport hcancel =>
          have hpending : node.pending = none := by simpa [habandoned] using hsteady.not_both
          exact ⟨fun _ => ⟨hpending, rfl⟩, Or.inr rfl⟩
      | write habandoned hport hcancel =>
          have hpending : node.pending = none := by simpa [habandoned] using hsteady.not_both
          exact ⟨fun _ => ⟨hpending, rfl⟩, Or.inr rfl⟩

theorem Steady.load (hsteady : node.Steady inFlight) (source : String) :
    (node.load source).Steady inFlight where
  idle hidle := by
    obtain ⟨hpending, habandoned⟩ := hsteady.idle hidle
    exact ⟨rfl, by simp [Node.load, reset, hpending, habandoned]⟩
  not_both := Or.inl rfl

/-- Whatever happens to a node, it has the status that it should have. -/
theorem Acts.status_eq [DecidableEq τ] (hacts : node.Acts task inFlight deeds after flag)
    (hsteady : node.Steady inFlight) (hstatus : node.status = node.dueStatus) :
    after.status = after.dueStatus := by
  cases hacts with
  | begins hstep =>
      -- the status is set where the step stops
      have hpending := (hsteady.idle rfl).1
      obtain ⟨demand, hdemand, hserved⟩ := served_of_step hstep
      exact hserved.status_eq (showsStatus_demand hstatus hpending hdemand)
        ((continues_demand hdemand).pending_eq.trans hpending)
  | resumes hresume =>
      have hresumed := resumed_of_resume hresume
      generalize node.resumeDeeds task _ = deeds at hresumed
      cases hresumed with
      | received hpending hport hfinish hpause hserved =>
          exact hserved.status_eq (showsStatus_pauseAfterRead rfl hpause)
            (continues_pauseAfterRead hpause).pending_eq
      | delivered hpending hport => exact status_of_finish none rfl
      -- an abandoned operation is not shown in the status
      | _ => exact hstatus
  | withdraws hwithdraw =>
      have hwithdrawn := withdrawn_of_withdraw hwithdraw
      generalize node.withdrawDeeds = deeds at hwithdrawn
      cases hwithdrawn <;> exact hstatus
  | stalls => exact hstatus
  | rests => exact hstatus

/-- Whatever happens to a node, it does what it would do by itself. -/
theorem Runs.acts [DecidableEq τ] (hruns : start.Runs before node) (hsteady : node.Steady inFlight)
    (hacts : node.Acts task inFlight deeds after flag) : start.Runs (before ++ deeds) after := by
  cases hacts with
  | begins hstep => exact hruns.step (hsteady.idle rfl).1 hstep
  | resumes hresume => exact hruns.resume hresume
  | stalls =>
      rw [List.append_nil]
      exact hruns.stall
  | rests =>
      rw [List.append_nil]
      exact hruns
  | withdraws hwithdraw => exact absurd hwithdraw hruns.withdraw_ne

end Node

end NodeGrid

import NodeGrid.Proofs.Node.Alone
import Mathlib.Data.List.TakeWhile

/-!
# The cycles of a node

A node counts the cycles it was asked for and the instructions it completed.  Every cycle
begins a step or finds the last one still waiting, and a step completes one instruction or
comes to wait, so the steps that have begun are at most the cycles (`Accounted.begun_le`).

Which steps are over can be seen from the deeds of the node alone: they are cut where a
step begins (`stepsOf`), and a step is over unless it ends with a wait (`isOver`).  A node
with a program has completed as many instructions as there are such steps
(`Accounted.executed_eq`), since a step that goes on after a wait is the last one that has
begun, and an operation of an earlier program comes to its end before the first one does.
All of this is kept by whatever happens to a node (`Accounted.moves`).
-/

namespace NodeGrid

variable {τ : Type} {n : ℕ}

/-! ## Steps in a list of deeds -/

/-- Whether the task waits in a channel after the deed. -/
def Deed.waits : Deed n → Bool
  | .send _ _ .blocked | .receive _ .blocked => true
  | .begin | .send _ _ .delivered | .finishSend _ _ | .cancelSend _ | .receive _ (.received _)
  | .finishReceive _ _ | .cancelReceive _ => false

/-- A step with these deeds is over unless the last of them is a wait. -/
def isOver (deeds : List (Deed n)) : Bool := !deeds.getLast?.any Deed.waits

/-- The steps that begin in a list of deeds, each with the deeds up to the next one. -/
def stepsOf : List (Deed n) → List (List (Deed n))
  | [] => []
  | .begin :: rest => rest.takeWhile (· ≠ .begin) :: stepsOf rest
  | _ :: rest => stepsOf rest

/-- The number of steps among the deeds that are over. -/
def settledSteps (deeds : List (Deed n)) : ℕ := (stepsOf deeds).countP isOver

section Steps

variable {deed : Deed n} {deeds earlier last : List (Deed n)}

theorem isOver_cons (hwaits : deed.waits = false) : isOver (deed :: deeds) = isOver deeds := by
  cases deeds with
  | nil => simp [isOver, hwaits]
  | cons first rest => simp [isOver]

theorem isOver_append (hlast : last ≠ []) : isOver (earlier ++ last) = isOver last := by
  cases last with
  | nil => exact absurd rfl hlast
  | cons first rest => simp [isOver, List.getLast?_append, List.getLast?_cons]

theorem stepsOf_cons_of_ne (hne : deed ≠ .begin) : stepsOf (deed :: deeds) = stepsOf deeds := by
  cases deed with
  | begin => exact absurd rfl hne
  | _ => rfl

theorem stepsOf_of_begin_notMem (hbegin : .begin ∉ deeds) : stepsOf deeds = [] := by
  induction deeds with
  | nil => rfl
  | cons deed rest ih =>
      rw [List.mem_cons, not_or] at hbegin
      rw [stepsOf_cons_of_ne (Ne.symm hbegin.1), ih hbegin.2]

/-- The last step that has begun. -/
theorem stepsOf_append_begin (hlast : .begin ∉ last) :
    stepsOf (earlier ++ .begin :: last) = stepsOf earlier ++ [last] := by
  induction earlier with
  | nil =>
      have hall : last.takeWhile (· ≠ .begin) = last :=
        List.takeWhile_eq_self_iff.mpr fun deed hdeed => by
          simpa using ne_of_mem_of_not_mem hdeed hlast
      simp only [List.nil_append, stepsOf, hall, stepsOf_of_begin_notMem hlast]
  | cons deed rest ih =>
      by_cases hdeed : deed = .begin
      · subst hdeed
        -- the first step ends before the last one begins
        have hcut : (rest ++ .begin :: last).takeWhile (· ≠ .begin) =
            rest.takeWhile (· ≠ .begin) := by
          rw [List.takeWhile_append]
          split
          · rename_i hall
            rw [(List.takeWhile_prefix _).eq_of_length hall]
            simp
          · rfl
        rw [List.cons_append, stepsOf, hcut, ih, stepsOf, List.cons_append]
      · rw [List.cons_append, stepsOf_cons_of_ne hdeed, stepsOf_cons_of_ne hdeed, ih]

theorem settledSteps_append_begin (hlast : .begin ∉ last) :
    settledSteps (earlier ++ .begin :: last) =
      settledSteps earlier + if isOver last then 1 else 0 := by
  simp [settledSteps, stepsOf_append_begin hlast, List.countP_append, List.countP_cons]

theorem settledSteps_of_begin_notMem (hbegin : .begin ∉ deeds) : settledSteps deeds = 0 := by
  simp [settledSteps, stepsOf_of_begin_notMem hbegin]

end Steps

/-! ## What a step counts -/

/-- How many instructions are complete at the pause that were not when the step began. -/
def Pause.completed : Pause n → ℕ
  | .settled _ => 1
  | .writing _ _ _ => 0

/-- How many instructions are completed when the demand is made. -/
def Demand.completed : Demand n → ℕ
  | .paused pause => pause.completed
  | .reading _ _ => 0

namespace Node

variable {node after : Node n} {task : τ} {fabric rest : Fabric τ n} {progress : Progress}
  {deeds : List (Deed n)}

/-- `after` is further on in an instruction of `node`, of which it has completed as many as
given. -/
structure CountedTo (node : Node n) (completed : ℕ) (after : Node n) : Prop where
  ip_eq : after.ip = node.ip
  requested_eq : after.requested = node.requested
  executed_eq : after.executed = node.executed + completed

theorem countedTo_pauseAfterRead {value : Int64} {pause : Pause n}
    (hpause : node.pauseAfterRead value = .ok pause) :
    node.CountedTo pause.completed pause.node := by
  obtain ⟨acc, target, rfl⟩ | ⟨_, port, -, -, rfl⟩ := pauseAfterRead_eq_ok hpause <;>
    exact ⟨rfl, rfl, rfl⟩

theorem countedTo_demandExecute {demand : Demand n} (hdemand : node.demandExecute = .ok demand) :
    node.CountedTo demand.completed demand.node := by
  obtain ⟨acc, bak, target, rfl⟩ | ⟨value, pause, hpause, rfl⟩ | ⟨_, port, -, -, rfl⟩ :=
    demandExecute_eq_ok hdemand
  · exact ⟨rfl, rfl, rfl⟩
  · exact countedTo_pauseAfterRead hpause
  · exact ⟨rfl, rfl, rfl⟩

/-- `after` is what `node` comes to that is in the middle of an instruction: with these deeds
the instruction is complete, or the node waits. -/
structure Ran (node : Node n) (deeds : List (Deed n)) (after : Node n) : Prop where
  begin_notMem : .begin ∉ deeds
  ip_eq : after.ip = node.ip
  compilation_eq : after.compilation = node.compilation
  abandoned_eq : after.abandoned = node.abandoned
  requested_eq : after.requested = node.requested
  executed_eq : after.executed = node.executed + if isOver deeds then 1 else 0
  pending_iff : after.pending = none ↔ isOver deeds = true

theorem Ran.cons {deed : Deed n} (hran : node.Ran deeds after) (hne : deed ≠ .begin)
    (hwaits : deed.waits = false) : node.Ran (deed :: deeds) after where
  begin_notMem := by simp [hne.symm, hran.begin_notMem]
  ip_eq := hran.ip_eq
  compilation_eq := hran.compilation_eq
  abandoned_eq := hran.abandoned_eq
  requested_eq := hran.requested_eq
  executed_eq := by rw [isOver_cons hwaits, hran.executed_eq]
  pending_iff := by rw [isOver_cons hwaits, hran.pending_iff]

end Node

section Served

variable {node after : Node n} {task : τ} {fabric rest : Fabric τ n} {progress : Progress}
  {deeds : List (Deed n)}

theorem Pause.Served.ran {pause : Pause n} (hserved : pause.Served task fabric deeds after rest)
    (hcontinues : node.Continues pause.node) (hcounted : node.CountedTo pause.completed pause.node)
    (hpending : node.pending = none) : node.Ran deeds after := by
  have hpause : pause.node.pending = none := hcontinues.pending_eq.trans hpending
  cases hserved with
  | settled =>
      exact ⟨by simp, hcounted.ip_eq, hcontinues.compilation_eq, hcontinues.abandoned_eq,
        hcounted.requested_eq, hcounted.executed_eq, iff_of_true hpause rfl⟩
  | delivered hport hsend =>
      refine ⟨by simp, hcounted.ip_eq, hcontinues.compilation_eq, hcontinues.abandoned_eq,
        hcounted.requested_eq, ?_, iff_of_true hpause rfl⟩
      exact congrArg (· + 1) hcounted.executed_eq
  | blocked hport hsend =>
      exact ⟨by simp, hcounted.ip_eq, hcontinues.compilation_eq, hcontinues.abandoned_eq,
        hcounted.requested_eq, hcounted.executed_eq, by simp [isOver, Deed.waits]⟩

theorem Demand.Served.ran {demand : Demand n} (hserved : demand.Served task fabric deeds after rest)
    (hcontinues : node.Continues demand.node)
    (hcounted : node.CountedTo demand.completed demand.node) (hpending : node.pending = none) :
    node.Ran deeds after := by
  cases hserved with
  | paused hpaused => exact hpaused.ran hcontinues hcounted hpending
  | blocked hport hreceive =>
      exact ⟨by simp, hcounted.ip_eq, hcontinues.compilation_eq, hcontinues.abandoned_eq,
        hcounted.requested_eq, hcounted.executed_eq, by simp [isOver, Deed.waits]⟩
  | received hport hreceive hpause hpaused =>
      have hafter := Node.countedTo_pauseAfterRead hpause
      refine (hpaused.ran (hcontinues.trans (Node.continues_pauseAfterRead hpause)) ⟨?_, ?_, ?_⟩
        hpending).cons (by simp) rfl
      · exact hafter.ip_eq.trans hcounted.ip_eq
      · exact hafter.requested_eq.trans hcounted.requested_eq
      · exact hafter.executed_eq.trans (congrArg (· + _) hcounted.executed_eq)

namespace Node

/-- A step that begins runs from a node that has counted its cycle. -/
theorem ran_of_step (hprogram : node.program ≠ []) (hpending : node.pending = none)
    (hstep : node.step task fabric = .ok (progress, after, rest)) :
    Ran { node.stall with ip := node.nextIp } (node.stepDeeds task fabric) after := by
  obtain ⟨demand, hdemand, hserved⟩ := served_of_step hstep
  rw [demand_eq, if_neg (by simpa using hprogram)] at hdemand
  have hcontinues := continues_demandExecute hdemand
  have hcounted := countedTo_demandExecute hdemand
  exact hserved.ran hcontinues hcounted hpending

/-- A step that goes on runs from a node that waits no more. -/
theorem Resumed.ran (hresumed : Resumed task fabric node deeds after rest)
    (hpending : node.pending ≠ none) :
    deeds ≠ [] ∧ Ran { node with pending := none } deeds after := by
  cases hresumed with
  | received _ hport hfinish hpause hserved =>
      refine ⟨by simp, Ran.cons ?_ (by simp) rfl⟩
      exact hserved.ran (continues_pauseAfterRead hpause) (countedTo_pauseAfterRead hpause) rfl
  | delivered _ hport => exact ⟨by simp, by simp, rfl, rfl, rfl, rfl, rfl, by simp [isOver, Deed.waits]⟩
  | dropped hnone => exact absurd hnone hpending
  | late hnone => exact absurd hnone hpending
  | nothing hnone => exact absurd hnone hpending

/-- A node that waits for nothing of its own counts nothing when it is resumed. -/
theorem Resumed.abandons (hresumed : Resumed task fabric node deeds after rest)
    (hpending : node.pending = none) :
    .begin ∉ deeds ∧ ∃ abandoned, after = { node with abandoned } := by
  cases hresumed with
  | received hsome => simp [hpending] at hsome
  | delivered hsome => simp [hpending] at hsome
  | dropped _ habandoned hport hfinish => exact ⟨by simp, none, rfl⟩
  | late _ habandoned hport => exact ⟨by simp, none, rfl⟩
  | nothing _ habandoned => exact ⟨by simp, node.abandoned, rfl⟩

theorem Withdrawn.after_eq [DecidableEq τ] (hwithdrawn : Withdrawn task fabric node deeds after rest) :
    .begin ∉ deeds ∧ node.abandoned ≠ none ∧ after = { node with abandoned := none } := by
  cases hwithdrawn with
  | read habandoned hport hcancel => exact ⟨by simp, by simp [habandoned], rfl⟩
  | write habandoned hport hcancel => exact ⟨by simp, by simp [habandoned], rfl⟩

/-! ## The account of a node -/

/-- The number of steps of its program that the node has begun. -/
def begun (node : Node n) : ℕ := node.executed + node.pending.isSome.toNat

theorem begun_le_succ_executed (node : Node n) : node.begun ≤ node.executed + 1 :=
  Nat.add_le_add_left node.pending.isSome.toNat_le _

theorem begun_of_pending (node : Node n) (hpending : node.pending ≠ none) :
    node.begun = node.executed + 1 := by
  rw [begun, Option.isSome_iff_ne_none.mpr hpending, Bool.toNat_true]

theorem begun_of_idle (hpending : node.pending = none) : node.begun = node.executed := by
  simp [begun, hpending]

theorem Ran.begun_eq (hran : node.Ran deeds after) : after.begun = node.executed + 1 := by
  rw [begun, hran.executed_eq]
  cases hpending : after.pending with
  | none => simp [hran.pending_iff.mp hpending]
  | some operation =>
      have hwaits : isOver deeds = false := by
        simpa [hpending] using hran.pending_iff.not
      simp [hwaits]

/-- Whatever a step comes to, it was asked for once and has begun once. -/
theorem cycles_of_step (hpending : node.pending = none)
    (hstep : node.step task fabric = .ok (progress, after, rest)) :
    after.requested = node.requested + 1 ∧ after.begun ≤ node.executed + 1 := by
  by_cases hprogram : node.program = []
  · obtain ⟨hstall, -⟩ := step_of_program_nil hprogram task fabric
    rw [hstep] at hstall
    cases hstall
    exact ⟨rfl, node.begun_le_succ_executed⟩
  · have hran := ran_of_step hprogram hpending hstep
    exact ⟨hran.requested_eq, hran.begun_eq.le⟩

/-- A step that goes on was asked for before. -/
theorem cycles_of_resume (hresume : node.resume task fabric = .ok (progress, after, rest)) :
    after.requested = node.requested ∧ after.begun = node.begun := by
  have hresumed := resumed_of_resume hresume
  by_cases hpending : node.pending = none
  · obtain ⟨-, abandoned, rfl⟩ := hresumed.abandons hpending
    exact ⟨rfl, rfl⟩
  · obtain ⟨-, hran⟩ := hresumed.ran hpending
    exact ⟨hran.requested_eq, hran.begun_eq.trans (node.begun_of_pending hpending).symm⟩

/-- The cycles of a node that has done these deeds since its program was loaded. -/
structure Accounted (node : Node n) (deeds : List (Deed n)) : Prop where
  executed_eq : node.executed = if node.program = [] then 0 else settledSteps deeds
  begun_le : node.begun ≤ node.requested
  /-- An outstanding step is the last one that has begun. -/
  waits : node.pending ≠ none → node.program ≠ [] ∧
    ∃ earlier last, deeds = earlier ++ .begin :: last ∧ .begin ∉ last ∧ isOver last = false
  /-- No step begins before an abandoned operation is over. -/
  begin_notMem : node.abandoned ≠ none → .begin ∉ deeds

theorem program_of_compilation_eq (heq : after.compilation = node.compilation) :
    after.program = node.program := by
  rw [program, program, heq]

/-- A new program starts a new account. -/
theorem accounted_load (node : Node n) (source : String) : (node.load source).Accounted [] where
  executed_eq := (ite_self 0).symm
  begun_le := Nat.le_refl 0
  waits hpending := absurd rfl hpending
  begin_notMem _ := by simp

namespace Accounted

variable {before : List (Deed n)}

theorem begins (haccounted : node.Accounted before) (hpending : node.pending = none)
    (habandoned : node.abandoned = none)
    (hstep : node.step task fabric = .ok (progress, after, rest)) :
    after.Accounted (before ++ .begin :: node.stepDeeds task fabric) := by
  have hle : node.executed ≤ node.requested := begun_of_idle hpending ▸ haccounted.begun_le
  -- a step without a program is requested, and never executed
  by_cases hprogram : node.program = []
  · obtain ⟨hstall, -⟩ := step_of_program_nil hprogram task fabric
    rw [hstep] at hstall
    cases hstall
    have hexecuted := haccounted.executed_eq
    rw [if_pos hprogram] at hexecuted
    refine ⟨?_, ?_, fun hsome => absurd hpending hsome, fun hsome => absurd habandoned hsome⟩
    · rw [if_pos (show node.stall.program = [] from hprogram)]
      exact hexecuted
    · exact Nat.le_succ_of_le haccounted.begun_le
  · -- the new step is the last of the list, and it counts if it is settled
    have hran := ran_of_step hprogram hpending hstep
    have hsame : after.program = node.program := program_of_compilation_eq hran.compilation_eq
    refine ⟨?_, ?_, fun hsome => ?_, fun hsome => ?_⟩
    · rw [hsame, if_neg hprogram, settledSteps_append_begin hran.begin_notMem, hran.executed_eq]
      have hexecuted := haccounted.executed_eq
      rw [if_neg hprogram] at hexecuted
      exact congrArg (· + _) hexecuted
    · rw [hran.begun_eq, hran.requested_eq]
      exact Nat.succ_le_succ hle
    · rw [hsame]
      refine ⟨hprogram, before, _, rfl, hran.begin_notMem, ?_⟩
      simpa using hran.pending_iff.not.mp hsome
    · exact absurd (hran.abandoned_eq.trans habandoned) hsome

/-- A step that is outstanding has begun, and none begins while an operation is abandoned. -/
theorem abandoned_eq (haccounted : node.Accounted before) (hpending : node.pending ≠ none) :
    node.abandoned = none := by
  obtain ⟨-, earlier, last, rfl, -⟩ := haccounted.waits hpending
  by_contra habandoned
  have hbegin := haccounted.begin_notMem habandoned
  simp at hbegin

/-- As long as an operation is abandoned, no step of the program has begun. -/
theorem abandons (haccounted : node.Accounted before) (habandoned : node.abandoned ≠ none)
    (hdeeds : .begin ∉ deeds) (abandoned : Option PortOperation) :
    Accounted { node with abandoned } (before ++ deeds) := by
  have hbefore := haccounted.begin_notMem habandoned
  have hnone : .begin ∉ before ++ deeds := by simp [hbefore, hdeeds]
  have hexecuted : node.executed = 0 := by
    rw [haccounted.executed_eq, settledSteps_of_begin_notMem hbefore, ite_self]
  refine ⟨?_, haccounted.begun_le, fun hsome => ?_, fun _ => hnone⟩
  · rw [settledSteps_of_begin_notMem hnone, ite_self]
    exact hexecuted
  · exact absurd (haccounted.abandoned_eq hsome) habandoned

theorem resumes (haccounted : node.Accounted before)
    (hresumed : Resumed task fabric node deeds after rest) (hengaged : node.engagement ≠ none) :
    after.Accounted (before ++ deeds) := by
  by_cases hpending : node.pending = none
  · obtain ⟨hdeeds, abandoned, rfl⟩ := hresumed.abandons hpending
    exact haccounted.abandons (fun hnone => hengaged (node.engagement_eq_none hpending hnone))
      hdeeds abandoned
  -- the step that goes on is the last one that has begun
  · obtain ⟨hne, hran⟩ := hresumed.ran hpending
    have hsame : after.program = node.program := program_of_compilation_eq hran.compilation_eq
    have habandoned : after.abandoned = none :=
      hran.abandoned_eq.trans (haccounted.abandoned_eq hpending)
    obtain ⟨hprogram, earlier, last, rfl, hlast, hwaits⟩ := haccounted.waits hpending
    have hnone : .begin ∉ last ++ deeds := by simp [hlast, hran.begin_notMem]
    have hexecuted := haccounted.executed_eq
    rw [if_neg hprogram, settledSteps_append_begin hlast, hwaits] at hexecuted
    rw [List.append_assoc, List.cons_append]
    refine ⟨?_, ?_, fun hsome => ?_, fun hsome => absurd habandoned hsome⟩
    · rw [hsame, if_neg hprogram, settledSteps_append_begin hnone, isOver_append hne,
        hran.executed_eq]
      exact congrArg (· + _) hexecuted
    · rw [hran.begun_eq, hran.requested_eq]
      exact node.begun_of_pending hpending ▸ haccounted.begun_le
    · rw [hsame]
      refine ⟨hprogram, earlier, _, rfl, hnone, ?_⟩
      rw [isOver_append hne]
      simpa using hran.pending_iff.not.mp hsome

theorem withdraws [DecidableEq τ] (haccounted : node.Accounted before)
    (hwithdrawn : Withdrawn task fabric node deeds after rest) :
    after.Accounted (before ++ deeds) := by
  obtain ⟨hdeeds, habandoned, rfl⟩ := hwithdrawn.after_eq
  exact haccounted.abandons habandoned hdeeds none

theorem stall (haccounted : node.Accounted before) : node.stall.Accounted before where
  executed_eq := haccounted.executed_eq
  begun_le := Nat.le_succ_of_le haccounted.begun_le
  waits := haccounted.waits
  begin_notMem := haccounted.begin_notMem

/-- Whatever happens to a node, its account stays right. -/
theorem moves [DecidableEq τ] (haccounted : node.Accounted before)
    (hmoves : node.Moves task deeds after) : after.Accounted (before ++ deeds) := by
  cases hmoves with
  | begins hsound hidle hstep =>
      obtain ⟨hpending, habandoned⟩ := hsound.engagement_eq_none_iff.mp hidle
      exact haccounted.begins hpending habandoned hstep
  | resumes hengaged hresume =>
      exact haccounted.resumes (resumed_of_resume hresume) hengaged
  | withdraws hwithdraw => exact haccounted.withdraws (withdrawn_of_withdraw hwithdraw)
  | stalls hengaged =>
      rw [List.append_nil]
      exact haccounted.stall
  | rests =>
      rw [List.append_nil]
      exact haccounted

end Accounted

end Node

end Served

end NodeGrid

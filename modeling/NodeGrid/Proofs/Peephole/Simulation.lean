import NodeGrid.Proofs.Node.Machine
import Mathlib.Data.List.Forall2

/-!
# Programs that do the same at their ports

An optimised program performs the port events of the original with the same
registers, but it may get to each of them after fewer instructions (`Matches`).
It *refines* the original if the port events of every number of steps of one are
matched by those of some number of steps of the other.

A refinement is shown step by step.  In a `Simulation`, every step of the original
machine is either matched by a step of its counterpart, or it performs no event and
the counterpart waits for it.  `delay` bounds how long it has to wait.
-/

namespace NodeGrid

open List (Forall₂)

/-- The same event with the same registers, after no more instructions. -/
structure Moment.Matches (original optimized : Moment) : Prop where
  event_eq : optimized.event = original.event
  acc_eq : optimized.acc = original.acc
  bak_eq : optimized.bak = original.bak
  executed_le : optimized.executed ≤ original.executed

namespace Moment.Matches

theorem refl (moment : Moment) : moment.Matches moment :=
  ⟨rfl, rfl, rfl, Nat.le_refl _⟩

theorem trans {first second third : Moment} (hfirst : first.Matches second)
    (hsecond : second.Matches third) : first.Matches third where
  event_eq := hsecond.event_eq.trans hfirst.event_eq
  acc_eq := hsecond.acc_eq.trans hfirst.acc_eq
  bak_eq := hsecond.bak_eq.trans hfirst.bak_eq
  executed_le := Nat.le_trans hsecond.executed_le hfirst.executed_le

theorem forall₂_trans {first second third : List Moment}
    (hfirst : Forall₂ Moment.Matches first second)
    (hsecond : Forall₂ Moment.Matches second third) : Forall₂ Moment.Matches first third := by
  induction hfirst generalizing third with
  | nil => exact hsecond
  | cons hhead _ ih =>
      cases hsecond with
      | cons hnext hrest => exact .cons (hhead.trans hnext) (ih hrest)

end Moment.Matches

/-! ## Traces -/

namespace Machine

variable {code : Program}

theorem trace_prefix_trace (machine : Machine) {steps more : ℕ} (hsteps : steps ≤ more) :
    machine.trace code steps <+: machine.trace code more := by
  induction steps generalizing machine more with
  | zero => exact List.nil_prefix
  | succ steps ih =>
      obtain ⟨more, rfl⟩ := Nat.exists_eq_add_of_le' (Nat.zero_lt_of_lt hsteps)
      exact (List.prefix_append_right_inj _).mpr (ih _ (Nat.le_of_succ_le_succ hsteps))

theorem getElem?_trace_of_le {machine : Machine} {steps more index : ℕ} {moment : Moment}
    (hsteps : steps ≤ more) (hmoment : (machine.trace code steps)[index]? = some moment) :
    (machine.trace code more)[index]? = some moment := by
  obtain ⟨rest, hrest⟩ := machine.trace_prefix_trace hsteps
  rw [← hrest, List.getElem?_append_left (List.getElem?_eq_some_iff.mp hmoment).1]
  exact hmoment

/-- An event has the same number in all traces that contain it. -/
theorem getElem?_trace_unique {machine : Machine} {steps others index : ℕ}
    {moment other : Moment} (hmoment : (machine.trace code steps)[index]? = some moment)
    (hother : (machine.trace code others)[index]? = some other) : moment = other := by
  have hlonger := getElem?_trace_of_le (Nat.le_max_left steps others) hmoment
  have hlonger' := getElem?_trace_of_le (Nat.le_max_right steps others) hother
  exact Option.some.inj (hlonger.symm.trans hlonger')

end Machine

/-! ## Refinement -/

/-- Both programs go through matching port events, whatever data they start with. -/
structure Refines (code optimized : Program) : Prop where
  exists_optimized : ∀ data steps, ∃ fewer, Forall₂ Moment.Matches
    ((Machine.start data).trace code steps) ((Machine.start data).trace optimized fewer)
  exists_original : ∀ data steps, ∃ more, Forall₂ Moment.Matches
    ((Machine.start data).trace code more) ((Machine.start data).trace optimized steps)

namespace Refines

variable {first second third : Program}

theorem refl (code : Program) : Refines code code where
  exists_optimized := fun _ steps =>
    ⟨steps, List.forall₂_same.mpr fun moment _ => .refl moment⟩
  exists_original := fun _ steps =>
    ⟨steps, List.forall₂_same.mpr fun moment _ => .refl moment⟩

theorem trans (hfirst : Refines first second) (hsecond : Refines second third) :
    Refines first third where
  exists_optimized := by
    intro data steps
    obtain ⟨between, hbetween⟩ := hfirst.exists_optimized data steps
    obtain ⟨fewer, hfewer⟩ := hsecond.exists_optimized data between
    exact ⟨fewer, Moment.Matches.forall₂_trans hbetween hfewer⟩
  exists_original := by
    intro data steps
    obtain ⟨between, hbetween⟩ := hsecond.exists_original data steps
    obtain ⟨more, hmore⟩ := hfirst.exists_original data between
    exact ⟨more, Moment.Matches.forall₂_trans hmore hbetween⟩

/-- Events with the same number match, however long the traces are. -/
theorem matches_of_getElem? (hrefines : Refines first second) {data : Data}
    {steps fewer index : ℕ} {moment other : Moment}
    (hmoment : ((Machine.start data).trace first steps)[index]? = some moment)
    (hother : ((Machine.start data).trace second fewer)[index]? = some other) :
    moment.Matches other := by
  -- the optimised trace that matches the original one need not be the given one
  obtain ⟨reached, hmatches⟩ := hrefines.exists_optimized data steps
  obtain ⟨hindex, rfl⟩ := List.getElem?_eq_some_iff.mp hmoment
  have hreached : index < ((Machine.start data).trace second reached).length :=
    hmatches.length_eq ▸ hindex
  have hsame := Machine.getElem?_trace_unique (List.getElem?_eq_getElem hreached) hother
  rw [← hsame]
  exact hmatches.get hindex hreached

end Refines

/-! ## Simulation -/

/-- A relation between the machines of two programs that they keep up. -/
structure Simulation (code optimized : Program) (Related : Machine → Machine → Prop)
    (delay : Machine → ℕ) : Prop where
  start : ∀ data, Related (.start data) (.start data)
  step : ∀ {machine counterpart : Machine}, Related machine counterpart →
    Forall₂ Moment.Matches (machine.step code).1 (counterpart.step optimized).1 ∧
        Related (machine.step code).2 (counterpart.step optimized).2 ∨
      (machine.step code).1 = [] ∧ Related (machine.step code).2 counterpart ∧
        delay (machine.step code).2 < delay machine

namespace Simulation

variable {code optimized : Program} {Related : Machine → Machine → Prop} {delay : Machine → ℕ}

theorem exists_trace_optimized (hsimulation : Simulation code optimized Related delay)
    (steps : ℕ) {machine counterpart : Machine} (hrelated : Related machine counterpart) :
    ∃ fewer, Forall₂ Moment.Matches (machine.trace code steps)
      (counterpart.trace optimized fewer) := by
  induction steps generalizing machine counterpart with
  | zero => exact ⟨0, .nil⟩
  | succ steps ih =>
      rcases hsimulation.step hrelated with ⟨hmoments, hnext⟩ | ⟨hsilent, hnext, -⟩
      · obtain ⟨fewer, hrest⟩ := ih hnext
        exact ⟨fewer + 1, List.rel_append hmoments hrest⟩
      · obtain ⟨fewer, hrest⟩ := ih hnext
        refine ⟨fewer, ?_⟩
        rw [Machine.trace, hsilent]
        exact hrest

/-- The original takes its silent steps until it can match a step. -/
theorem exists_trace_original_succ (hsimulation : Simulation code optimized Related delay)
    {steps : ℕ}
    (hlater : ∀ {machine counterpart : Machine}, Related machine counterpart →
      ∃ more, Forall₂ Moment.Matches (machine.trace code more)
        (counterpart.trace optimized steps))
    {machine counterpart : Machine} (hrelated : Related machine counterpart) :
    ∃ more, Forall₂ Moment.Matches (machine.trace code more)
      (counterpart.trace optimized (steps + 1)) := by
  rcases hsimulation.step hrelated with ⟨hmoments, hnext⟩ | ⟨hsilent, hnext, hdelay⟩
  · obtain ⟨more, hrest⟩ := hlater hnext
    exact ⟨more + 1, List.rel_append hmoments hrest⟩
  · obtain ⟨more, hrest⟩ := exists_trace_original_succ hsimulation hlater hnext
    refine ⟨more + 1, ?_⟩
    rw [Machine.trace, hsilent]
    exact hrest
termination_by delay machine

theorem exists_trace_original (hsimulation : Simulation code optimized Related delay)
    (steps : ℕ) {machine counterpart : Machine} (hrelated : Related machine counterpart) :
    ∃ more, Forall₂ Moment.Matches (machine.trace code more)
      (counterpart.trace optimized steps) := by
  induction steps generalizing machine counterpart with
  | zero => exact ⟨0, .nil⟩
  | succ steps ih => exact hsimulation.exists_trace_original_succ ih hrelated

/-- Programs that simulate each other's steps do the same at their ports. -/
theorem refines (hsimulation : Simulation code optimized Related delay) :
    Refines code optimized where
  exists_optimized := fun data steps =>
    hsimulation.exists_trace_optimized steps (hsimulation.start data)
  exists_original := fun data steps =>
    hsimulation.exists_trace_original steps (hsimulation.start data)

end Simulation

end NodeGrid

import NodeGrid.Semaphore
import Mathlib.Data.List.Nodup
import Mathlib.Algebra.Order.Group.Int
import Mathlib.Algebra.Group.Nat.Even

/-!
# The line of a semaphore

A semaphore owes its waiting tasks as many permits as its count is below zero.
`Serves` ties the line to the tasks that are meant to wait in it: each of them
stands in the line once, nobody else does, and the length of the line is what
the count owes.

Each operation keeps this up, as long as the count does not leave the machine
word.  The two bounds that this takes are stated per operation; whoever uses the
semaphore has to know them (`Proofs/Channel/Accounts.lean` derives them from the
capacity of a channel and the number of its tasks).
-/

namespace NodeGrid

/-! ## Counting in a machine word -/

theorem toInt_add_one (word : Int64) (hword : word.toInt < 2 ^ 63 - 1) :
    (word + 1).toInt = word.toInt + 1 := by
  have hlow := word.le_toInt
  rw [Int64.toInt_add, Int64.toInt_one]
  exact Int.bmod_eq_of_le (by omega) (by omega)

theorem toInt_sub_one (word : Int64) (hword : -2 ^ 63 < word.toInt) :
    (word - 1).toInt = word.toInt - 1 := by
  have hhigh := word.toInt_lt
  rw [Int64.toInt_sub, Int64.toInt_one]
  exact Int.bmod_eq_of_le (by omega) (by omega)

namespace Semaphore

variable {τ : Type} {semaphore : Semaphore τ} {parked : τ → Prop} {task : τ}

/-- The line holds the parked tasks, each of them once, and is as long as the
count is below zero. -/
structure Serves (semaphore : Semaphore τ) (parked : τ → Prop) : Prop where
  nodup : semaphore.waiters.Nodup
  mem_iff : ∀ task, task ∈ semaphore.waiters ↔ parked task
  waiting_eq : (semaphore.waiting : ℤ) = max (-semaphore.permits.toInt) 0

theorem Serves.congr {other : τ → Prop} (hserves : semaphore.Serves parked)
    (hother : ∀ task, parked task ↔ other task) : semaphore.Serves other where
  nodup := hserves.nodup
  mem_iff task := (hserves.mem_iff task).trans (hother task)
  waiting_eq := hserves.waiting_eq

theorem Serves.self (hserves : semaphore.Serves parked) :
    semaphore.Serves (· ∈ semaphore.waiters) :=
  hserves.congr fun task => (hserves.mem_iff task).symm

theorem serves_ofCount {count : ℕ} (hcount : count < 2 ^ 63) :
    (ofCount count : Semaphore τ).Serves fun _ => False where
  nodup := List.nodup_nil
  mem_iff task := by simp [ofCount]
  waiting_eq := by
    rw [waiting_ofCount, ofCount, Int64.toInt_ofNat_of_lt hcount]
    omega

/-- Nobody waits exactly while the count is not negative. -/
theorem Serves.waiters_eq_nil_iff (hserves : semaphore.Serves parked) :
    semaphore.waiters = [] ↔ 0 ≤ semaphore.permits.toInt := by
  have hlength := hserves.waiting_eq
  rw [← List.length_eq_zero_iff]
  unfold waiting at hlength
  omega

/-! ## Waiting -/

theorem wait_of_pos (hpermits : 0 < semaphore.permits.toInt) :
    semaphore.wait task =
      (.granted, { semaphore with permits := semaphore.permits - 1 }) := by
  have hleft := toInt_sub_one semaphore.permits (by omega)
  have hnot : ¬ semaphore.permits - 1 < 0 := by
    rw [Int64.lt_iff_toInt_lt, hleft, Int64.toInt_zero]
    omega
  simp only [wait, if_neg hnot]

theorem wait_of_nonpos (hlow : -2 ^ 63 < semaphore.permits.toInt)
    (hpermits : semaphore.permits.toInt ≤ 0) :
    semaphore.wait task =
      (.suspended,
        { permits := semaphore.permits - 1, waiters := semaphore.waiters ++ [task] }) := by
  have hleft := toInt_sub_one semaphore.permits hlow
  have hneg : semaphore.permits - 1 < 0 := by
    rw [Int64.lt_iff_toInt_lt, hleft, Int64.toInt_zero]
    omega
  simp only [wait, if_pos hneg]

/-- Whoever asks for a permit has to wait exactly if none is free. -/
theorem wait_eq_suspended_iff (hlow : -2 ^ 63 < semaphore.permits.toInt) :
    (semaphore.wait task).1 = .suspended ↔ semaphore.permits.toInt ≤ 0 := by
  by_cases hfree : 0 < semaphore.permits.toInt
  · simp [wait_of_pos hfree, hfree]
  · simp [wait_of_nonpos hlow (not_lt.mp hfree), not_lt.mp hfree]

/-- The same tasks stand in line after a free permit was granted or retracted. -/
theorem Serves.take (hserves : semaphore.Serves parked)
    (hpermits : 0 < semaphore.permits.toInt) :
    Serves { semaphore with permits := semaphore.permits - 1 } parked where
  nodup := hserves.nodup
  mem_iff := hserves.mem_iff
  waiting_eq := by
    have hleft := toInt_sub_one semaphore.permits (by omega)
    have hlength := hserves.waiting_eq
    simp only [waiting] at hlength ⊢
    omega

theorem Serves.lineUp (hserves : semaphore.Serves parked) (hidle : ¬ parked task)
    (hlow : -2 ^ 63 < semaphore.permits.toInt) (hpermits : semaphore.permits.toInt ≤ 0) :
    Serves { permits := semaphore.permits - 1, waiters := semaphore.waiters ++ [task] }
      fun other => parked other ∨ other = task where
  nodup := by
    have hnot : task ∉ semaphore.waiters := fun hmem => hidle ((hserves.mem_iff task).mp hmem)
    rw [List.nodup_append]
    refine ⟨hserves.nodup, List.nodup_singleton task, ?_⟩
    rintro other hother _ htask rfl
    rw [List.mem_singleton] at htask
    exact hnot (htask ▸ hother)
  mem_iff other := by
    rw [List.mem_append, List.mem_singleton, hserves.mem_iff]
  waiting_eq := by
    have hleft := toInt_sub_one semaphore.permits hlow
    have hlength := hserves.waiting_eq
    simp only [waiting, List.length_append, List.length_singleton] at hlength ⊢
    omega

/-! ## Signalling -/

@[simp] theorem permits_signal : semaphore.signal.2.permits = semaphore.permits + 1 := rfl

@[simp] theorem permits_retract : semaphore.retract.permits = semaphore.permits - 1 := rfl

theorem Serves.parked_of_signal (hserves : semaphore.Serves parked)
    (hwoken : semaphore.signal.1 = some task) : parked task := by
  rw [← hserves.mem_iff]
  exact List.mem_of_head? hwoken

/-- The woken task leaves the line. -/
theorem Serves.signal (hserves : semaphore.Serves parked)
    (hhigh : semaphore.permits.toInt < 2 ^ 63 - 1) :
    semaphore.signal.2.Serves fun other => parked other ∧ semaphore.signal.1 ≠ some other := by
  have hnext := toInt_add_one semaphore.permits hhigh
  have hlength := hserves.waiting_eq
  have hnodup := hserves.nodup
  have hmem := hserves.mem_iff
  unfold Semaphore.signal
  cases hwaiters : semaphore.waiters with
  -- nobody waits, and the permit stays free
  | nil =>
      refine ⟨List.nodup_nil, ?_, ?_⟩
      · intro other
        simp [← hmem, hwaiters]
      · simp only [waiting, hwaiters, List.length_nil, List.tail_nil] at hlength ⊢
        omega
  -- the first in line is not in line a second time
  | cons first rest =>
      rw [hwaiters, List.nodup_cons] at hnodup
      refine ⟨hnodup.2, ?_, ?_⟩
      · intro other
        simp only [← hmem, hwaiters, List.mem_cons, List.head?_cons, List.tail_cons, ne_eq,
          Option.some.injEq]
        constructor
        · intro hother
          exact ⟨Or.inr hother, fun heq => hnodup.1 (heq ▸ hother)⟩
        · rintro ⟨rfl | hother, hne⟩
          · exact absurd rfl hne
          · exact hother
      · simp only [waiting, hwaiters, List.length_cons, List.tail_cons] at hlength ⊢
        omega

/-! ## Leaving the line -/

section Cancel

variable [DecidableEq τ]

/-- A task can leave the line exactly while it stands in it. -/
theorem Serves.cancel_eq_none_iff (hserves : semaphore.Serves parked) :
    semaphore.cancel task = none ↔ ¬ parked task := by
  rw [← hserves.mem_iff, cancel]
  split <;> simp_all

theorem Serves.cancel {rest : Semaphore τ} (hserves : semaphore.Serves parked)
    (hhigh : semaphore.permits.toInt < 2 ^ 63 - 1)
    (hcancel : semaphore.cancel task = some rest) :
    rest.Serves fun other => parked other ∧ other ≠ task := by
  have hnext := toInt_add_one semaphore.permits hhigh
  have hlength := hserves.waiting_eq
  have hrest := waiting_cancel hcancel
  unfold Semaphore.cancel at hcancel
  split at hcancel
  · cases hcancel
    refine ⟨hserves.nodup.erase task, ?_, ?_⟩
    · intro other
      rw [hserves.nodup.mem_erase_iff, hserves.mem_iff, and_comm]
    · dsimp only at hrest ⊢
      omega
  · cases hcancel

/-- Leaving the line frees the permit that was charged for. -/
theorem permits_cancel {rest : Semaphore τ} (hcancel : semaphore.cancel task = some rest) :
    rest.permits = semaphore.permits + 1 := by
  unfold cancel at hcancel
  split at hcancel <;> cases hcancel
  rfl

end Cancel

/-! ## Who stands in line -/

/-- Whoever is granted a permit overtakes nobody. -/
theorem Serves.of_granted {rest : Semaphore τ} (hserves : semaphore.Serves parked)
    (hlow : -2 ^ 63 < semaphore.permits.toInt) (hwait : semaphore.wait task = (.granted, rest)) :
    0 < semaphore.permits.toInt ∧ semaphore.waiters = [] ∧ rest.waiters = semaphore.waiters := by
  by_cases hpermits : 0 < semaphore.permits.toInt
  · rw [wait_of_pos hpermits] at hwait
    cases hwait
    exact ⟨hpermits, hserves.waiters_eq_nil_iff.mpr hpermits.le, rfl⟩
  · rw [wait_of_nonpos hlow (not_lt.mp hpermits)] at hwait
    cases hwait

theorem waiters_of_suspended {rest : Semaphore τ} (hwait : semaphore.wait task = (.suspended, rest)) :
    rest.waiters = semaphore.waiters ++ [task] := by
  unfold wait at hwait
  by_cases hleft : semaphore.permits - 1 < 0
  · simp only [if_pos hleft] at hwait
    cases hwait
    rfl
  · simp only [if_neg hleft] at hwait
    cases hwait

theorem waiters_of_granted {rest : Semaphore τ} (hwait : semaphore.wait task = (.granted, rest)) :
    rest.waiters = semaphore.waiters := by
  unfold wait at hwait
  by_cases hleft : semaphore.permits - 1 < 0
  · simp only [if_pos hleft] at hwait
    cases hwait
  · simp only [if_neg hleft] at hwait
    cases hwait
    rfl

theorem waiters_signal (semaphore : Semaphore τ) :
    semaphore.waiters = semaphore.signal.1.toList ++ semaphore.signal.2.waiters := by
  unfold signal
  cases semaphore.waiters <;> rfl

/-- A permit that wakes a task is not free. -/
theorem Serves.permits_signal_nonpos (hserves : semaphore.Serves parked)
    (hwoken : semaphore.signal.1 = some task) : semaphore.signal.2.permits.toInt ≤ 0 := by
  have hlength := hserves.waiting_eq
  have hpos : 0 < semaphore.waiting := List.length_pos_of_mem (List.mem_of_head? hwoken)
  rw [permits_signal, toInt_add_one semaphore.permits (by omega)]
  omega

/-- Nor is the permit of a task that has left the line. -/
theorem Serves.permits_cancel_nonpos [DecidableEq τ] {rest : Semaphore τ}
    (hserves : semaphore.Serves parked) (hcancel : semaphore.cancel task = some rest) :
    rest.permits.toInt ≤ 0 := by
  have hlength := hserves.waiting_eq
  have hrest := waiting_cancel hcancel
  rw [permits_cancel hcancel, toInt_add_one semaphore.permits (by omega)]
  omega

theorem waiters_cancel [DecidableEq τ] {rest : Semaphore τ}
    (hcancel : semaphore.cancel task = some rest) :
    task ∈ semaphore.waiters ∧ rest.waiters = semaphore.waiters.erase task := by
  unfold cancel at hcancel
  split at hcancel
  · rename_i hmem
    cases hcancel
    exact ⟨hmem, rfl⟩
  · cases hcancel

end Semaphore

end NodeGrid

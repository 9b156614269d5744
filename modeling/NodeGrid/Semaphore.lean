/-!
# Counting semaphores

A semaphore counts permits and keeps the tasks that wait for one in the order
in which they arrived.  Its count goes below zero while tasks wait: each
waiting task has already been charged for the permit it is going to get.

Every operation returns the semaphore that follows it.  `signal` also returns
the task it wakes, and `cancel` answers `none` when there is nothing to cancel,
so a refused cancellation cannot change anything.
-/

namespace NodeGrid

/-- Permits, and the tasks that wait for one, longest wait first. -/
structure Semaphore (τ : Type) where
  /-- The free permits; below zero, the permits that are owed to waiting tasks. -/
  permits : Int64
  /-- The waiting tasks in the order of their arrival. -/
  waiters : List τ
deriving DecidableEq

/-- How a request for a permit ends. -/
inductive Acquire where
  /-- The permit was free. -/
  | granted
  /-- The task waits; the `signal` that hands it the permit wakes it. -/
  | suspended
deriving DecidableEq

namespace Semaphore

variable {τ : Type}

/-- A semaphore nobody waits for.  The count is a machine word, so `count` is
taken modulo `2 ^ 64` and its upper half reads as negative. -/
def ofCount (count : Nat) : Semaphore τ where
  permits := Int64.ofNat count
  waiters := []

/-- Takes a permit, or lines up for one when none is free. -/
def wait (semaphore : Semaphore τ) (task : τ) : Acquire × Semaphore τ :=
  let left := semaphore.permits - 1
  if left < 0 then
    (.suspended, { permits := left, waiters := semaphore.waiters ++ [task] })
  else
    (.granted, { semaphore with permits := left })

/-- Returns a permit and wakes the task that has waited longest, if any. -/
def signal (semaphore : Semaphore τ) : Option τ × Semaphore τ :=
  (semaphore.waiters.head?,
    { permits := semaphore.permits + 1, waiters := semaphore.waiters.tail })

/-- Takes `task` out of the line together with the permit it was charged for;
`none` when it does not wait here, for instance because it was woken. -/
def cancel [DecidableEq τ] (semaphore : Semaphore τ) (task : τ) : Option (Semaphore τ) :=
  if task ∈ semaphore.waiters then
    some { permits := semaphore.permits + 1, waiters := semaphore.waiters.erase task }
  else
    none

/-- Takes a free permit back.  Meant for a positive count only. -/
def retract (semaphore : Semaphore τ) : Semaphore τ :=
  { semaphore with permits := semaphore.permits - 1 }

/-- The number of waiting tasks. -/
def waiting (semaphore : Semaphore τ) : Nat :=
  semaphore.waiters.length

@[simp] theorem waiting_ofCount (count : Nat) : (ofCount count : Semaphore τ).waiting = 0 := rfl

@[simp] theorem waiting_retract (semaphore : Semaphore τ) :
    semaphore.retract.waiting = semaphore.waiting := rfl

/-- A task joins the line exactly when it is suspended. -/
theorem waiting_wait (semaphore : Semaphore τ) (task : τ) :
    (semaphore.wait task).2.waiting =
      semaphore.waiting + if (semaphore.wait task).1 = .suspended then 1 else 0 := by
  unfold wait waiting
  by_cases hleft : semaphore.permits - 1 < 0 <;> simp [hleft]

/-- A woken task has left the line, and no other task has. -/
theorem waiting_signal (semaphore : Semaphore τ) :
    semaphore.signal.2.waiting + semaphore.signal.1.toList.length = semaphore.waiting := by
  unfold signal waiting
  cases semaphore.waiters <;> simp

/-- A cancelled task was in the line and has left it. -/
theorem waiting_cancel [DecidableEq τ] {semaphore rest : Semaphore τ} {task : τ}
    (hcancel : semaphore.cancel task = some rest) : rest.waiting + 1 = semaphore.waiting := by
  unfold cancel at hcancel
  split at hcancel
  · rename_i hmem
    cases hcancel
    have := List.length_pos_of_mem hmem
    simp only [waiting, List.length_erase_of_mem hmem]
    omega
  · cases hcancel

end Semaphore

end NodeGrid

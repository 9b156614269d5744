import NodeGrid.Channel
import NodeGrid.Proofs.Semaphore.Line
import Mathlib.Data.List.Nodup

/-!
# Backpressure

Senders that nobody receives from fill the slots of a channel, and then wait.  Each of
them takes one off the count of empty slots, whether it is served or has to wait
(`send_of_pos`, `send_of_nonpos`), so the count alone tells how many of them are served
(`sendAll_eq`).

The count of an unused channel is its capacity, as long as this is a signed word
(`backpressure`).  A larger capacity becomes a negative count, and then nobody is served.
The bounds on the number of sends keep the count from falling below the least word.
-/

namespace NodeGrid

/-- A count in the upper half of the unsigned words is read as negative. -/
theorem toInt_ofNat_of_le {count : ℕ} (hlow : 2 ^ 63 ≤ count) (hhigh : count < 2 ^ 64) :
    (Int64.ofNat count).toInt = count - 2 ^ 64 := by
  have hsize : (Int64.size : ℤ) = 2 ^ 64 := rfl
  rw [Int64.toInt_ofNat', ← Int.sub_bmod_right]
  exact Int.bmod_eq_of_le (by omega) (by omega)

namespace Channel

variable {τ : Type} {channel : Channel τ}

/-- Sends values one after the other. -/
def sendAll (channel : Channel τ) : List (τ × Int64) → List SendStatus × Channel τ
  | [] => ([], channel)
  | (task, value) :: rest =>
    let (status, _, next) := channel.send value task
    let (statuses, last) := next.sendAll rest
    (status :: statuses, last)

/-- The answer to the send of the given number, where so many slots are empty. -/
def statusAt (free : ℤ) (index : ℕ) : SendStatus :=
  if (index : ℤ) < free then .delivered else .blocked

theorem statusAt_succ (free : ℤ) (index : ℕ) :
    statusAt free (index + 1) = statusAt (free - 1) index := by
  unfold statusAt
  congr 1
  exact propext (by omega)

theorem statusAt_of_nonpos {free : ℤ} (hfull : free ≤ 0) (index : ℕ) :
    statusAt free index = .blocked :=
  if_neg (by omega)

theorem send_of_pos (value : Int64) (task : τ)
    (hfree : 0 < channel.emptySlots.permits.toInt) :
    ∃ woken next, channel.send value task = (.delivered, woken, next) ∧
      next.emptySlots.permits = channel.emptySlots.permits - 1 ∧
      next.buffer = channel.buffer ++ [value] := by
  simp only [send, Semaphore.wait_of_pos hfree]
  exact ⟨_, _, rfl, rfl, rfl⟩

theorem send_of_nonpos (value : Int64) (task : τ)
    (hlow : -2 ^ 63 < channel.emptySlots.permits.toInt)
    (hfull : channel.emptySlots.permits.toInt ≤ 0) :
    ∃ woken next, channel.send value task = (.blocked, woken, next) ∧
      next.emptySlots.permits = channel.emptySlots.permits - 1 ∧
      next.buffer = channel.buffer := by
  simp only [send, Semaphore.wait_of_nonpos hlow hfull]
  exact ⟨_, _, rfl, rfl, rfl⟩

/-- Of the sends to a channel, as many are served as there are empty slots. -/
theorem sendAll_eq {sends : List (τ × Int64)}
    (hroom : (sends.length : ℤ) ≤ channel.emptySlots.permits.toInt + 2 ^ 63) :
    (channel.sendAll sends).1 =
        sends.mapIdx (fun index _ => statusAt channel.emptySlots.permits.toInt index) ∧
      (channel.sendAll sends).2.buffer =
        channel.buffer ++ (sends.map Prod.snd).take channel.emptySlots.permits.toInt.toNat := by
  -- every send leaves one permit less, and fills a slot if the permit was there
  induction sends generalizing channel with
  | nil => simp [sendAll]
  | cons first rest ih =>
      obtain ⟨task, value⟩ := first
      rw [List.length_cons] at hroom
      have hleft := toInt_sub_one channel.emptySlots.permits (by omega)
      simp only [List.mapIdx_cons, List.map_cons, statusAt_succ]
      by_cases hfree : 0 < channel.emptySlots.permits.toInt
      · -- there is a slot: the value gets into the buffer
        obtain ⟨woken, next, hsend, hpermits, hbuffer⟩ := send_of_pos value task hfree
        rw [← hpermits] at hleft
        obtain ⟨hstatuses, hlast⟩ := @ih next (by omega)
        have hfirst : statusAt channel.emptySlots.permits.toInt 0 = .delivered := if_pos hfree
        have htake : channel.emptySlots.permits.toInt.toNat =
            next.emptySlots.permits.toInt.toNat + 1 := by omega
        simp only [sendAll, hsend]
        rw [hstatuses, hlast, hbuffer, hfirst, htake, hleft, List.take_succ_cons, List.append_assoc]
        exact ⟨rfl, rfl⟩
      · obtain ⟨woken, next, hsend, hpermits, hbuffer⟩ :=
          send_of_nonpos value task (by omega) (not_lt.mp hfree)
        rw [← hpermits] at hleft
        obtain ⟨hstatuses, hlast⟩ := @ih next (by omega)
        -- no slot is left, neither for this send nor for those that come later
        have hfirst := statusAt_of_nonpos (not_lt.mp hfree) 0
        have htake : next.emptySlots.permits.toInt.toNat = 0 := by omega
        have hnone : channel.emptySlots.permits.toInt.toNat = 0 := by omega
        simp only [sendAll, hsend]
        rw [hstatuses, hlast, hbuffer, hfirst, htake, hnone, hleft]
        exact ⟨rfl, rfl⟩

/-- A channel serves as many sends as it has slots, if its capacity is a signed word.  With a
capacity beyond those words it serves none. -/
theorem backpressure (capacity : ℕ) (sends : List (τ × Int64)) :
    (capacity < 2 ^ 63 → sends.length ≤ capacity + 2 ^ 63 →
      ((ofCapacity capacity).sendAll sends).1 =
          sends.mapIdx (fun index _ => if index < capacity then .delivered else .blocked) ∧
        ((ofCapacity capacity).sendAll sends).2.buffer = (sends.map Prod.snd).take capacity ∧
        ((ofCapacity capacity).sendAll sends).2.buffer.length = min sends.length capacity) ∧
    (2 ^ 63 < capacity → capacity < 2 ^ 64 → sends.length + 2 ^ 63 ≤ capacity →
      ((ofCapacity capacity).sendAll sends).1 = List.replicate sends.length .blocked ∧
        ((ofCapacity capacity).sendAll sends).2.buffer = []) := by
  constructor
  · intro hword hroom
    -- up to here, the permits are the capacity
    have hcount : (ofCapacity capacity : Channel τ).emptySlots.permits.toInt = capacity :=
      Int64.toInt_ofNat_of_lt hword
    have hroom : (sends.length : ℤ) ≤
        (ofCapacity capacity : Channel τ).emptySlots.permits.toInt + 2 ^ 63 := by omega
    obtain ⟨hstatuses, hbuffer⟩ := sendAll_eq hroom
    rw [hcount] at hstatuses hbuffer
    have hvalues : ((ofCapacity capacity).sendAll sends).2.buffer =
        (sends.map Prod.snd).take capacity := by
      rw [hbuffer, Int.toNat_natCast]
      rfl
    refine ⟨?_, hvalues, ?_⟩
    · rw [hstatuses]
      simp only [statusAt, Int.ofNat_lt]
    · rw [hvalues, List.length_take, List.length_map, min_comm]
  · intro hlow hhigh hroom
    -- beyond, the permits read as negative, and stay so
    have hcount : (ofCapacity capacity : Channel τ).emptySlots.permits.toInt = capacity - 2 ^ 64 :=
      toInt_ofNat_of_le hlow.le hhigh
    have hroom : (sends.length : ℤ) ≤
        (ofCapacity capacity : Channel τ).emptySlots.permits.toInt + 2 ^ 63 := by omega
    obtain ⟨hstatuses, hbuffer⟩ := sendAll_eq hroom
    have hnone : (ofCapacity capacity : Channel τ).emptySlots.permits.toInt ≤ 0 := by omega
    refine ⟨?_, ?_⟩
    · rw [hstatuses]
      exact List.mapIdx_eq_replicate_iff.mpr fun index _ => statusAt_of_nonpos (by omega) index
    · rw [hbuffer, Int.toNat_of_nonpos hnone, List.take_zero, List.append_nil]
      rfl

/-- The third of three sends to a channel with two slots waits, and so does the first one to a
channel with as many slots as an unsigned word can count. -/
theorem backpressure_of_two_and_of_largest :
    2 < 2 ^ 63 ∧ [(0, 5), (1, 6), (2, 7)].length ≤ 2 + 2 ^ 63 ∧
      ((ofCapacity 2 : Channel (Fin 3)).sendAll [(0, 5), (1, 6), (2, 7)]).1 =
        [.delivered, .delivered, .blocked] ∧
      ((ofCapacity 2 : Channel (Fin 3)).sendAll [(0, 5), (1, 6), (2, 7)]).2.buffer = [5, 6] ∧
      2 ^ 63 < 2 ^ 64 - 1 ∧ 2 ^ 64 - 1 < 2 ^ 64 ∧ [(0, 5)].length + 2 ^ 63 ≤ 2 ^ 64 - 1 ∧
      ((ofCapacity (2 ^ 64 - 1) : Channel (Fin 3)).sendAll [(0, 5)]).1 = [.blocked] ∧
      ((ofCapacity (2 ^ 64 - 1) : Channel (Fin 3)).sendAll [(0, 5)]).2.buffer = [] := by
  obtain ⟨hstatuses, hbuffer, -⟩ :=
    (backpressure 2 [((0 : Fin 3), 5), (1, 6), (2, 7)]).1 (by decide) (by decide)
  obtain ⟨hblocked, hnone⟩ :=
    (backpressure (2 ^ 64 - 1) [((0 : Fin 3), 5)]).2 (by decide) (by decide) (by decide)
  exact ⟨by decide, by decide, hstatuses, hbuffer, by decide, by decide, by decide, hblocked, hnone⟩

/-- Not every capacity that an unsigned word can hold is the number of sends that are served. -/
theorem not_forall_backpressure :
    ¬ ∀ capacity < 2 ^ 64, ∀ sends : List (Fin 1 × Int64), (sends.map Prod.fst).Nodup →
      ((ofCapacity capacity).sendAll sends).1 =
        sends.mapIdx fun index _ => if index < capacity then .delivered else .blocked := by
  intro hall
  have hfirst := hall (2 ^ 64 - 1) (by decide) [(0, 5)] (by decide)
  revert hfirst
  decide

end Channel

end NodeGrid

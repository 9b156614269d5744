import NodeGrid.Proofs.Channel.Protocol
import NodeGrid.Proofs.Semaphore.Line

/-!
# Who waits at a channel

`Lines` says that the two semaphores of a channel serve the tasks whose phases
are parked ones.  Every step an action is made of changes one semaphore or the
phase of one task, and here is what each of them does to the lines.
-/

namespace NodeGrid

theorem Semaphore.Serves.waiting_eq_tally {τ : Type} [Fintype τ] {semaphore : Semaphore τ}
    {counted : Phase → Bool} {phase : τ → Phase}
    (hserves : semaphore.Serves fun task => counted (phase task) = true) :
    semaphore.waiting = Exchange.tally counted phase := by
  classical
  rw [waiting, ← List.toFinset_card_of_nodup hserves.nodup, Exchange.tally]
  congr 1
  ext task
  simp [hserves.mem_iff task]

namespace Exchange

variable {τ : Type}

/-- Parked senders wait for empty slots, parked receivers for filled ones. -/
structure Lines (emptySlots filledSlots : Semaphore τ) (phase : τ → Phase) : Prop where
  senders : emptySlots.Serves fun task => (phase task).isParkedSend = true
  receivers : filledSlots.Serves fun task => (phase task).isParkedReceive = true

variable {emptySlots filledSlots : Semaphore τ} {phase : τ → Phase} {task : τ}

/-! ## Permits -/

theorem Lines.takeSlot (hlines : Lines emptySlots filledSlots phase)
    (hfree : 0 < emptySlots.permits.toInt) :
    Lines { emptySlots with permits := emptySlots.permits - 1 } filledSlots phase :=
  ⟨hlines.senders.take hfree, hlines.receivers⟩

theorem Lines.takeValue (hlines : Lines emptySlots filledSlots phase)
    (hfree : 0 < filledSlots.permits.toInt) :
    Lines emptySlots { filledSlots with permits := filledSlots.permits - 1 } phase :=
  ⟨hlines.senders, hlines.receivers.take hfree⟩

/-- Whoever empty slots wake is a parked sender. -/
theorem Lines.woken_sender (hlines : Lines emptySlots filledSlots phase)
    (hwoken : emptySlots.signal.1 = some task) : ∃ value, phase task = .parkedSend value :=
  Phase.isParkedSend_iff.mp (hlines.senders.parked_of_signal hwoken)

theorem Lines.woken_receiver (hlines : Lines emptySlots filledSlots phase)
    (hwoken : filledSlots.signal.1 = some task) : phase task = .parkedReceive :=
  Phase.isParkedReceive_iff.mp (hlines.receivers.parked_of_signal hwoken)

theorem Lines.woken_slot_ne (hlines : Lines emptySlots filledSlots phase)
    (hidle : phase task = .idle) : emptySlots.signal.1 ≠ some task := by
  intro heq
  obtain ⟨value, hphase⟩ := hlines.woken_sender heq
  rw [hidle] at hphase
  cases hphase

theorem Lines.woken_value_ne (hlines : Lines emptySlots filledSlots phase)
    (hphase : phase task ≠ .parkedReceive) : filledSlots.signal.1 ≠ some task :=
  fun heq => hphase (hlines.woken_receiver heq)

variable [DecidableEq τ]

/-! ## Phases -/

/-- A task that does not wait may change to any phase in which it does not. -/
theorem Lines.update (hlines : Lines emptySlots filledSlots phase) {new : Phase}
    (hsend : (phase task).isParkedSend = new.isParkedSend)
    (hreceive : (phase task).isParkedReceive = new.isParkedReceive) :
    Lines emptySlots filledSlots (Function.update phase task new) where
  senders := hlines.senders.congr (counted_update_of_eq Phase.isParkedSend hsend)
  receivers := hlines.receivers.congr (counted_update_of_eq Phase.isParkedReceive hreceive)

/-! ## Waiting -/

theorem Lines.awaitSlot (hlines : Lines emptySlots filledSlots phase)
    (hidle : phase task = .idle) (hlow : -2 ^ 63 < emptySlots.permits.toInt)
    (hfull : emptySlots.permits.toInt ≤ 0) (value : Int64) :
    Lines { permits := emptySlots.permits - 1, waiters := emptySlots.waiters ++ [task] }
      filledSlots (Function.update phase task (.parkedSend value)) where
  senders := (hlines.senders.lineUp (by simp [hidle]) hlow hfull).congr
    (counted_update_of_true Phase.isParkedSend phase task rfl)
  receivers := hlines.receivers.congr
    (counted_update_of_eq Phase.isParkedReceive (by simp [hidle]))

theorem Lines.awaitValue (hlines : Lines emptySlots filledSlots phase)
    (hidle : phase task = .idle) (hlow : -2 ^ 63 < filledSlots.permits.toInt)
    (hnone : filledSlots.permits.toInt ≤ 0) :
    Lines emptySlots
      { permits := filledSlots.permits - 1, waiters := filledSlots.waiters ++ [task] }
      (Function.update phase task .parkedReceive) where
  senders := hlines.senders.congr (counted_update_of_eq Phase.isParkedSend (by simp [hidle]))
  receivers := (hlines.receivers.lineUp (by simp [hidle]) hlow hnone).congr
    (counted_update_of_true Phase.isParkedReceive phase task rfl)

/-! ## Waking -/

theorem Lines.signalSlot (hlines : Lines emptySlots filledSlots phase)
    (hhigh : emptySlots.permits.toInt < 2 ^ 63 - 1) :
    Lines emptySlots.signal.2 filledSlots (wakeIn phase emptySlots.signal.1) where
  senders := (hlines.senders.signal hhigh).congr
    (counted_wakeIn_of_false Phase.isParkedSend phase _ Phase.isParkedSend_wake)
  receivers := hlines.receivers.congr <|
    counted_wakeIn_of_eq Phase.isParkedReceive fun other hwoken => by
      obtain ⟨value, hphase⟩ := hlines.woken_sender hwoken
      rw [Phase.isParkedReceive_wake, hphase]
      rfl

theorem Lines.signalValue (hlines : Lines emptySlots filledSlots phase)
    (hhigh : filledSlots.permits.toInt < 2 ^ 63 - 1) :
    Lines emptySlots filledSlots.signal.2 (wakeIn phase filledSlots.signal.1) where
  senders := hlines.senders.congr <|
    counted_wakeIn_of_eq Phase.isParkedSend fun other hwoken => by
      rw [Phase.isParkedSend_wake, hlines.woken_receiver hwoken]
      rfl
  receivers := (hlines.receivers.signal hhigh).congr
    (counted_wakeIn_of_false Phase.isParkedReceive phase _ Phase.isParkedReceive_wake)

/-! ## Withdrawing -/

theorem Lines.cancelled_sender {rest : Semaphore τ} (hlines : Lines emptySlots filledSlots phase)
    (hcancel : emptySlots.cancel task = some rest) : ∃ value, phase task = .parkedSend value := by
  rw [← Phase.isParkedSend_iff]
  by_contra hnot
  rw [hlines.senders.cancel_eq_none_iff.mpr hnot] at hcancel
  cases hcancel

theorem Lines.cancelled_receiver {rest : Semaphore τ}
    (hlines : Lines emptySlots filledSlots phase)
    (hcancel : filledSlots.cancel task = some rest) : phase task = .parkedReceive := by
  rw [← Phase.isParkedReceive_iff]
  by_contra hnot
  rw [hlines.receivers.cancel_eq_none_iff.mpr hnot] at hcancel
  cases hcancel

theorem Lines.cancelSlot {rest : Semaphore τ} (hlines : Lines emptySlots filledSlots phase)
    (hhigh : emptySlots.permits.toInt < 2 ^ 63 - 1)
    (hcancel : emptySlots.cancel task = some rest)
    (hsender : ∃ value, phase task = .parkedSend value) :
    Lines rest filledSlots (Function.update phase task .idle) where
  senders := (hlines.senders.cancel hhigh hcancel).congr
    (counted_update_of_false Phase.isParkedSend phase task rfl)
  receivers := hlines.receivers.congr <|
    counted_update_of_eq Phase.isParkedReceive <| by
      obtain ⟨value, hphase⟩ := hsender
      simp [hphase]

theorem Lines.cancelValue {rest : Semaphore τ} (hlines : Lines emptySlots filledSlots phase)
    (hhigh : filledSlots.permits.toInt < 2 ^ 63 - 1)
    (hcancel : filledSlots.cancel task = some rest) (hreceiver : phase task = .parkedReceive) :
    Lines emptySlots rest (Function.update phase task .idle) where
  senders := hlines.senders.congr
    (counted_update_of_eq Phase.isParkedSend (by simp [hreceiver]))
  receivers := (hlines.receivers.cancel hhigh hcancel).congr
    (counted_update_of_false Phase.isParkedReceive phase task rfl)

end Exchange

end NodeGrid

import NodeGrid.Fault
import NodeGrid.Semaphore

/-!
# Channels

A channel is a queue of values that any number of tasks may write and read.  It
is guarded by two semaphores: one counts the slots that a sender may fill, the
other the values that a receiver may take.

The slots a channel starts with are its capacity.  A receive first adds one and
only then asks for a value, so a receiver that comes early lends a slot to its
sender.  A channel of capacity zero has no other slots, and passes a value on
only when both of its ends take part.

An operation that cannot be served at once is *blocked*, and its task waits in
one of the semaphores.  After the task has been woken, it ends its operation
with `finishSend` or `finishReceive`; before that, it may take the operation back
with `cancelSend` or `cancelReceive`.

Every operation returns the channel that follows it.  Those that can wake a
task wake at most one, and return it.
-/

namespace NodeGrid

/-- How a send ends. -/
inductive SendStatus where
  | delivered
  /-- The sender waits for a slot and ends with `finishSend` once woken. -/
  | blocked
deriving DecidableEq

/-- How a receive ends. -/
inductive ReceiveStatus where
  | received (value : Int64)
  /-- The receiver waits for a value and ends with `finishReceive` once woken. -/
  | blocked
deriving DecidableEq

/-- A bounded queue of values with the tasks that wait at its two ends. -/
structure Channel (τ : Type) where
  capacity : Nat
  /-- Counts the slots that a sender may fill. -/
  emptySlots : Semaphore τ
  /-- Counts the values that a receiver may take. -/
  filledSlots : Semaphore τ
  /-- The values sent and not yet taken, oldest first. -/
  buffer : List Int64
  /-- The value most recently offered by a sender, delivered or not. -/
  lastSent : Option Int64
deriving DecidableEq

namespace Channel

variable {τ : Type}

/-- An unused channel. -/
def ofCapacity (capacity : Nat) : Channel τ where
  capacity := capacity
  emptySlots := .ofCount capacity
  filledSlots := .ofCount 0
  buffer := []
  lastSent := none

/-- Puts a value into a slot that the caller holds, and wakes a receiver. -/
def deliver (channel : Channel τ) (value : Int64) : Option τ × Channel τ :=
  let (woken, filledSlots) := channel.filledSlots.signal
  (woken, { channel with filledSlots, buffer := channel.buffer ++ [value] })

/-- Takes the oldest value for a caller that has been granted one. -/
def take (channel : Channel τ) : Except Fault (Int64 × Channel τ) :=
  match channel.buffer with
  | [] => .error .emptyBuffer
  | value :: buffer => .ok (value, { channel with buffer })

/-- Offers `value`; blocks `task` while no slot is empty. -/
def send (channel : Channel τ) (value : Int64) (task : τ) :
    SendStatus × Option τ × Channel τ :=
  match channel.emptySlots.wait task with
  | (.granted, emptySlots) =>
    (.delivered, { channel with emptySlots, lastSent := some value }.deliver value)
  | (.suspended, emptySlots) =>
    (.blocked, none, { channel with emptySlots, lastSent := some value })

/-- Ends a blocked send whose task has been woken. -/
def finishSend (channel : Channel τ) (value : Int64) : Option τ × Channel τ :=
  channel.deliver value

/-- Announces a receiver, which may wake a sender, and then asks for a value;
blocks `task` while none is free. -/
def receive (channel : Channel τ) (task : τ) :
    Except Fault (ReceiveStatus × Option τ × Channel τ) :=
  let (woken, emptySlots) := channel.emptySlots.signal
  match channel.filledSlots.wait task with
  | (.granted, filledSlots) => do
    let (value, channel) ← { channel with emptySlots, filledSlots }.take
    return (.received value, woken, channel)
  | (.suspended, filledSlots) =>
    .ok (.blocked, woken, { channel with emptySlots, filledSlots })

/-- Ends a blocked receive whose task has been woken. -/
def finishReceive (channel : Channel τ) : Except Fault (Int64 × Channel τ) :=
  channel.take

/-- Takes back a blocked send; `none` when its task has been woken already, so
that the send has to be ended with `finishSend`. -/
def cancelSend [DecidableEq τ] (channel : Channel τ) (task : τ) : Option (Channel τ) :=
  (channel.emptySlots.cancel task).map fun emptySlots => { channel with emptySlots }

/-- Takes back a blocked receive together with the slot it announced; `none`
when its task has been woken already or the announced slot is promised to a
sender, so that the receive has to be ended with `finishReceive`. -/
def cancelReceive [DecidableEq τ] (channel : Channel τ) (task : τ) : Option (Channel τ) :=
  if channel.emptySlots.permits ≤ 0 then
    none
  else
    (channel.filledSlots.cancel task).map fun filledSlots =>
      { channel with emptySlots := channel.emptySlots.retract, filledSlots }

/-! ## The tasks that wait at a channel -/

/-- The number of tasks that wait at either end. -/
def waiting (channel : Channel τ) : Nat :=
  channel.emptySlots.waiting + channel.filledSlots.waiting

@[simp] theorem waiting_ofCapacity (capacity : Nat) :
    (ofCapacity capacity : Channel τ).waiting = 0 := rfl

theorem waiting_deliver (channel : Channel τ) (value : Int64) :
    (channel.deliver value).2.waiting + (channel.deliver value).1.toList.length =
      channel.waiting := by
  have := channel.filledSlots.waiting_signal
  simp only [deliver, waiting]
  omega

/-- A send wakes at most one task, and only its own task can start to wait. -/
theorem waiting_send_le (channel : Channel τ) (value : Int64) (task : τ) :
    (channel.send value task).2.2.waiting + (channel.send value task).2.1.toList.length ≤
      channel.waiting + if (channel.send value task).1 = .blocked then 1 else 0 := by
  have hwait := channel.emptySlots.waiting_wait task
  unfold send
  split
  · rename_i emptySlots hacquire
    have := ({ channel with emptySlots, lastSent := some value } : Channel τ).waiting_deliver value
    simp_all [waiting]
  · rename_i emptySlots hacquire
    simp_all [waiting, Nat.add_right_comm]

theorem waiting_finishSend (channel : Channel τ) (value : Int64) :
    (channel.finishSend value).2.waiting + (channel.finishSend value).1.toList.length =
      channel.waiting :=
  channel.waiting_deliver value

/-- Ending a receive neither wakes a task nor lets one wait. -/
theorem waiting_finishReceive {channel rest : Channel τ} {value : Int64}
    (htake : channel.finishReceive = .ok (value, rest)) : rest.waiting = channel.waiting := by
  unfold finishReceive take at htake
  split at htake <;> cases htake
  rfl

end Channel

end NodeGrid

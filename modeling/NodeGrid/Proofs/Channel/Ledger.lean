import NodeGrid.Proofs.Channel.Accounts

/-!
# What a run of a channel delivers

The events of a run say which values were put into the buffer and which were
taken out, and how many receivers have announced themselves for good.  What was
put in is what was taken out, followed by what is still there
(`Run.delivered_eq`), and every receiver that has announced itself has either
been served or is still engaged (`Run.announced_eq`).

`Run.accounts` states the accounts of a channel in full: what its counts say
about its buffer and its tasks, when a task is parked, and that a receiver that
is promised a value finds one.
-/

namespace NodeGrid

/-- Whether the task is in the middle of a receive. -/
def Phase.isReceiving (phase : Phase) : Bool := phase.isParkedReceive || phase.isWokenReceive

@[simp] theorem Phase.isReceiving_wake (phase : Phase) :
    phase.wake.isReceiving = phase.isReceiving := by
  cases phase <;> rfl

/-! ## The buffer and the capacity -/

/-- The value that a receive has ended with. -/
@[simp] def ReceiveStatus.value? : ReceiveStatus → Option Int64
  | .received value => some value
  | .blocked => none

namespace Channel

variable {τ : Type} {channel rest : Channel τ} {task : τ} {value : Int64}

theorem buffer_send {status : SendStatus} {woken : Option τ}
    (hsend : channel.send value task = (status, woken, rest)) :
    rest.buffer = channel.buffer ++ (if status = .delivered then [value] else []) ∧
      rest.capacity = channel.capacity := by
  unfold send at hsend
  split at hsend <;> cases hsend
  · exact ⟨rfl, rfl⟩
  · exact ⟨(List.append_nil _).symm, rfl⟩

theorem buffer_take (htake : channel.take = .ok (value, rest)) :
    channel.buffer = value :: rest.buffer ∧ rest.capacity = channel.capacity := by
  unfold take at htake
  split at htake <;> cases htake
  exact ⟨by assumption, rfl⟩

theorem buffer_receive {status : ReceiveStatus} {woken : Option τ}
    (hreceive : channel.receive task = .ok (status, woken, rest)) :
    channel.buffer = status.value?.toList ++ rest.buffer ∧ rest.capacity = channel.capacity := by
  simp only [receive] at hreceive
  split at hreceive
  · obtain ⟨⟨value, channel⟩, htake, hresult⟩ := bind_eq_ok.mp hreceive
    cases hresult
    have htaken := buffer_take htake
    exact htaken
  · cases hreceive
    exact ⟨rfl, rfl⟩

theorem buffer_cancelSend [DecidableEq τ] (hcancel : channel.cancelSend task = some rest) :
    rest.buffer = channel.buffer ∧ rest.capacity = channel.capacity := by
  obtain ⟨emptySlots, -, rfl⟩ := Option.map_eq_some_iff.mp hcancel
  exact ⟨rfl, rfl⟩

theorem buffer_cancelReceive [DecidableEq τ] (hcancel : channel.cancelReceive task = some rest) :
    rest.buffer = channel.buffer ∧ rest.capacity = channel.capacity := by
  unfold cancelReceive at hcancel
  split at hcancel
  · cases hcancel
  · obtain ⟨filledSlots, -, rfl⟩ := Option.map_eq_some_iff.mp hcancel
    exact ⟨rfl, rfl⟩

end Channel

namespace Exchange

variable {τ : Type}

/-- The value that an event puts into the buffer. -/
def put? : Event τ → Option Int64
  | (.send _ value, .delivered) => some value
  | (.finishSend _ value, _) => some value
  | _ => none

/-- The value that an event takes out of the buffer. -/
def taken? : Event τ → Option Int64
  | (_, .received value) => some value
  | _ => none

/-- Whether a receive is called. -/
def announces : Event τ → Bool
  | (.receive _, _) => true
  | _ => false

/-- Whether a receive is taken back. -/
def retracts : Event τ → Bool
  | (.cancelReceive _, .withdrawn) => true
  | _ => false

/-- The values of the completed sends, in the order in which they completed. -/
def delivered (events : List (Event τ)) : List Int64 := events.filterMap put?

/-- The values that receives have taken, in the order in which they did. -/
def received (events : List (Event τ)) : List Int64 := events.filterMap taken?

/-- The number of receives that were started. -/
def announced (events : List (Event τ)) : ℕ := events.countP announces

/-- The number of receives that were withdrawn. -/
def retracted (events : List (Event τ)) : ℕ := events.countP retracts

theorem delivered_concat (events : List (Event τ)) (event : Event τ) :
    delivered (events ++ [event]) = delivered events ++ (put? event).toList := by
  simp [delivered, List.filterMap_eq_flatMap_toList]

theorem received_concat (events : List (Event τ)) (event : Event τ) :
    received (events ++ [event]) = received events ++ (taken? event).toList := by
  simp [received, List.filterMap_eq_flatMap_toList]

theorem announced_concat (events : List (Event τ)) (event : Event τ) :
    announced (events ++ [event]) = announced events + (announces event).toNat := by
  cases hevent : announces event <;> simp [announced, hevent]

theorem retracted_concat (events : List (Event τ)) (event : Event τ) :
    retracted (events ++ [event]) = retracted events + (retracts event).toNat := by
  cases hevent : retracts event <;> simp [retracted, hevent]

theorem tally_isReceiving [Fintype τ] (exchange : Exchange τ) :
    tally Phase.isReceiving exchange.phase =
      exchange.parkedReceivers + exchange.wokenReceivers := by
  simp only [parkedReceivers, wokenReceivers, tally_eq_sum, ← Finset.sum_add_distrib]
  refine Finset.sum_congr rfl fun task _ => ?_
  cases exchange.phase task <;> rfl

variable [DecidableEq τ]

/-- An action changes the buffer by the values that its event puts in and takes
out, and leaves the capacity alone. -/
theorem buffer_of_perform {exchange next : Exchange τ} {action : Action τ} {reply : Reply}
    (hperform : exchange.perform action = .ok (reply, next)) :
    exchange.channel.buffer ++ (put? (action, reply)).toList =
        (taken? (action, reply)).toList ++ next.channel.buffer ∧
      next.channel.capacity = exchange.channel.capacity := by
  cases action with
  | send task value =>
      -- the value is in the buffer unless the send is blocked
      obtain ⟨status, woken, channel, hsend, rfl, rfl⟩ := perform_send hperform
      obtain ⟨hbuffer, hcapacity⟩ := Channel.buffer_send hsend
      refine ⟨?_, hcapacity⟩
      rw [advance_channel, hbuffer]
      cases status <;> simp [put?, taken?, Reply.ofSend]
  | finishSend task value =>
      cases hperform
      exact ⟨rfl, rfl⟩
  | receive task =>
      obtain ⟨status, woken, channel, hreceive, rfl, rfl⟩ := perform_receive hperform
      obtain ⟨hbuffer, hcapacity⟩ := Channel.buffer_receive hreceive
      refine ⟨?_, hcapacity⟩
      rw [hbuffer]
      cases status <;> simp [put?, taken?, Reply.ofReceive]
  | finishReceive task =>
      obtain ⟨value, channel, htake, rfl, rfl⟩ := perform_finishReceive hperform
      obtain ⟨hbuffer, hcapacity⟩ := Channel.buffer_take htake
      refine ⟨?_, hcapacity⟩
      simp [hbuffer, put?, taken?]
  | cancelSend task =>
      -- withdrawals do not touch the buffer
      rcases perform_cancelSend hperform with ⟨channel, hcancel, rfl, rfl⟩ | ⟨-, rfl, rfl⟩
      · obtain ⟨hbuffer, hcapacity⟩ := Channel.buffer_cancelSend hcancel
        refine ⟨?_, hcapacity⟩
        simp [hbuffer, put?, taken?]
      · exact ⟨List.append_nil _, rfl⟩
  | cancelReceive task =>
      rcases perform_cancelReceive hperform with ⟨channel, hcancel, rfl, rfl⟩ | ⟨-, rfl, rfl⟩
      · obtain ⟨hbuffer, hcapacity⟩ := Channel.buffer_cancelReceive hcancel
        refine ⟨?_, hcapacity⟩
        simp [hbuffer, put?, taken?]
      · exact ⟨List.append_nil _, rfl⟩

/-- An action changes the number of engaged receivers by those that its event
announces, serves and withdraws. -/
theorem receiving_of_perform [Fintype τ] {exchange next : Exchange τ} {action : Action τ}
    {reply : Reply} (hallowed : exchange.Allows action)
    (hperform : exchange.perform action = .ok (reply, next)) :
    tally Phase.isReceiving exchange.phase + (announces (action, reply)).toNat =
      tally Phase.isReceiving next.phase + (retracts (action, reply)).toNat +
        (taken? (action, reply)).toList.length := by
  -- waking a receiver does not change whether it is in the middle of a receive
  have htally := tally_advance_of_wake Phase.isReceiving Phase.isReceiving_wake exchange
  cases action with
  | send task value =>
      obtain ⟨status, woken, channel, -, rfl, rfl⟩ := perform_send hperform
      have hcount := htally channel woken task (sendPhase value status)
      rw [show exchange.phase task = .idle from hallowed] at hcount
      cases status <;> exact hcount.symm
  | finishSend task value =>
      cases hperform
      have hcount := htally (exchange.channel.finishSend value).2
        (exchange.channel.finishSend value).1 task .idle
      rw [show exchange.phase task = .wokenSend value from hallowed] at hcount
      exact hcount.symm
  | receive task =>
      obtain ⟨status, woken, channel, -, rfl, rfl⟩ := perform_receive hperform
      have hcount := htally channel woken task (receivePhase status)
      rw [show exchange.phase task = .idle from hallowed] at hcount
      cases status with
      | received value => exact congrArg (· + 1) hcount.symm
      | blocked => exact hcount.symm
  | finishReceive task =>
      obtain ⟨value, channel, -, rfl, rfl⟩ := perform_finishReceive hperform
      have hcount := htally channel none task .idle
      rw [show exchange.phase task = .wokenReceive from hallowed] at hcount
      exact hcount.symm
  | cancelSend task =>
      rcases perform_cancelSend hperform with ⟨channel, -, rfl, rfl⟩ | ⟨-, rfl, rfl⟩
      · have hcount := htally channel none task .idle
        rcases hallowed with ⟨value, hphase | hphase⟩
        all_goals
          rw [hphase] at hcount
          exact hcount.symm
      · rfl
  | cancelReceive task =>
      rcases perform_cancelReceive hperform with ⟨channel, -, rfl, rfl⟩ | ⟨-, rfl, rfl⟩
      · have hcount := htally channel none task .idle
        rcases hallowed with hphase | hphase
        all_goals
          rw [hphase] at hcount
          exact hcount.symm
      · rfl

/-! ## Runs -/

section Runs

variable {capacity : ℕ} {exchange : Exchange τ} {events : List (Event τ)}

/-- What was put into the buffer has been taken out, or is still there. -/
theorem Run.delivered_eq (hrun : Run capacity events exchange) :
    delivered events = received events ++ exchange.channel.buffer := by
  induction hrun with
  | start => rfl
  | @act events exchange next action reply hrun hallowed hperform ih =>
      rw [delivered_concat, received_concat, ih, List.append_assoc, List.append_assoc,
        (buffer_of_perform hperform).1]

theorem Run.capacity_eq (hrun : Run capacity events exchange) :
    exchange.channel.capacity = capacity := by
  induction hrun with
  | start => rfl
  | @act events exchange next action reply hrun hallowed hperform ih =>
      rw [(buffer_of_perform hperform).2, ih]

variable [Fintype τ]

/-- Every receive that was started has been withdrawn or served, or its receiver
is still engaged. -/
theorem Run.announced_eq (hrun : Run capacity events exchange) :
    announced events = retracted events + (received events).length +
      (exchange.parkedReceivers + exchange.wokenReceivers) := by
  rw [← tally_isReceiving]
  induction hrun with
  | start => simp [announced, retracted, received, ofCapacity, tally, Phase.isReceiving]
  | @act events exchange next action reply hrun hallowed hperform ih =>
      have hstep := receiving_of_perform hallowed hperform
      rw [announced_concat, retracted_concat, received_concat, List.length_append, ih]
      omega

/-! ## The accounts in full -/

/-- What the counts of a channel of the given capacity say after the given
events. -/
structure Accounts (capacity : ℕ) (events : List (Event τ)) (exchange : Exchange τ) : Prop where
  /-- A slot is empty unless a value lies in it, a sender holds it or a sender
  has been charged for it; every engaged receiver brings one. -/
  slots_eq : exchange.channel.emptySlots.permits.toInt =
    capacity - exchange.channel.buffer.length - exchange.wokenSenders -
      exchange.parkedSenders + exchange.parkedReceivers + exchange.wokenReceivers
  parkedSenders_eq :
    (exchange.parkedSenders : ℤ) = max (-exchange.channel.emptySlots.permits.toInt) 0
  /-- A buffered value is free or promised. -/
  length_buffer_eq : (exchange.channel.buffer.length : ℤ) =
    max exchange.channel.filledSlots.permits.toInt 0 + exchange.wokenReceivers
  parkedReceivers_eq :
    (exchange.parkedReceivers : ℤ) = max (-exchange.channel.filledSlots.permits.toInt) 0
  /-- The tasks that wait for a slot are the parked senders, each once. -/
  senders : exchange.channel.emptySlots.waiters.Nodup ∧
    ∀ task, task ∈ exchange.channel.emptySlots.waiters ↔
      ∃ value, exchange.phase task = .parkedSend value
  /-- The tasks that wait for a value are the parked receivers, each once. -/
  receivers : exchange.channel.filledSlots.waiters.Nodup ∧
    ∀ task, task ∈ exchange.channel.filledSlots.waiters ↔ exchange.phase task = .parkedReceive
  /-- No more values are outstanding than there are slots. -/
  outstanding_le : exchange.channel.buffer.length + exchange.wokenSenders ≤
    capacity + exchange.parkedReceivers + exchange.wokenReceivers
  /-- A sender is parked only while every slot is taken. -/
  outstanding_eq : 0 < exchange.parkedSenders →
    exchange.channel.buffer.length + exchange.wokenSenders =
      capacity + exchange.parkedReceivers + exchange.wokenReceivers
  /-- A receiver is parked only while every value is promised. -/
  promised_eq : 0 < exchange.parkedReceivers →
    exchange.channel.buffer.length = exchange.wokenReceivers
  /-- Values are received in the order in which they were sent. -/
  delivered_eq : delivered events = received events ++ exchange.channel.buffer
  /-- A send beyond the capacity completes only after a receive that is not
  withdrawn has been started for it. -/
  completed_le : (delivered events).length + retracted events ≤ capacity + announced events
  /-- A receiver that has been woken finds a value. -/
  buffer_ne_nil : ∀ task, exchange.phase task = .wokenReceive → exchange.channel.buffer ≠ []
  /-- The channel serves every action that the protocol allows. -/
  serves : ∀ action, exchange.Allows action →
    ∃ reply next, exchange.perform action = .ok (reply, next)

/-- The accounts of a channel hold after every run of it. -/
theorem Run.accounts (hroom : capacity + Fintype.card τ ≤ 2 ^ 63 - 1)
    (hrun : Run capacity events exchange) : Accounts capacity events exchange := by
  have hsound := hrun.sound hroom
  have hcapacity := hrun.capacity_eq
  have hslots := hsound.slots_eq
  have hvalues := hsound.values_eq
  have hsenders := hsound.parkedSenders_eq
  have hreceivers := hsound.parkedReceivers_eq
  have hannounced := hrun.announced_eq
  have hdelivered := hrun.delivered_eq
  rw [hcapacity] at hslots
  constructor
  case slots_eq => exact hslots
  case parkedSenders_eq => exact hsenders
  case length_buffer_eq => omega
  case parkedReceivers_eq => exact hreceivers
  case senders =>
    exact ⟨hsound.lines.senders.nodup, fun task =>
      (hsound.lines.senders.mem_iff task).trans Phase.isParkedSend_iff⟩
  case receivers =>
    exact ⟨hsound.lines.receivers.nodup, fun task =>
      (hsound.lines.receivers.mem_iff task).trans Phase.isParkedReceive_iff⟩
  case outstanding_le => omega
  case outstanding_eq => omega
  case promised_eq => omega
  case delivered_eq => exact hdelivered
  case completed_le =>
    rw [hdelivered, List.length_append]
    omega
  case buffer_ne_nil =>
    -- the buffer holds at least as many values as there are woken receivers
    intro task hphase hnil
    have hpos : 0 < exchange.wokenReceivers := tally_pos task (by simp [hphase])
    rw [hnil, List.length_nil] at hvalues
    omega
  case serves =>
    intro action hallowed
    obtain ⟨reply, next, hperform, -⟩ := hsound.perform hallowed
    exact ⟨reply, next, hperform⟩

/-- A sender meets a receiver at a channel without slots of its own: the sender
waits, the receiver wakes it and is woken in turn. -/
theorem Run.accounts_rendezvous :
    ∃ exchange : Exchange Bool,
      0 + Fintype.card Bool ≤ 2 ^ 63 - 1 ∧
      Run 0 [(.send true 7, .blocked), (.receive false, .blocked),
        (.finishSend true 7, .delivered)] exchange ∧
      exchange.phase false = .wokenReceive ∧
      Accounts 0 [(.send true 7, .blocked), (.receive false, .blocked),
        (.finishSend true 7, .delivered)] exchange := by
  have hstart : Run 0 [] (ofCapacity 0 : Exchange Bool) := .start
  have hsent : Run 0 ([] ++ [(.send true 7, .blocked)]) _ := hstart.act rfl rfl
  have hasked : Run 0 ([(.send true 7, .blocked)] ++ [(.receive false, .blocked)]) _ :=
    hsent.act rfl rfl
  have hfilled : Run 0 ([(.send true 7, .blocked), (.receive false, .blocked)] ++
      [(.finishSend true 7, .delivered)]) _ := hasked.act rfl rfl
  exact ⟨_, by decide, hfilled, rfl, Run.accounts (by decide) hfilled⟩

end Runs

end Exchange

end NodeGrid

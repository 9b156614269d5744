import NodeGrid.Proofs.Channel.Lines

/-!
# The accounts of a channel

What the two counts of a channel say about its buffer and its tasks.  A slot is
empty unless a value lies in it, a sender holds it or a sender has been charged
for it; and every receiver that has not finished brings a slot of its own.  A
value is free unless a receiver has been promised it or charged for it.

`Exchange.Sound` is this invariant with the lines of the two semaphores.  Being
granted a permit at once is the same as being woken at once, so that each action
is made up of a few moves: a permit is granted or the task lines up
(`Sound.offer`, `Sound.announce`), a woken task ends its
operation (`Sound.deliver`, `Sound.take`), a parked one withdraws it
(`Sound.cancelSend`, `Sound.cancelReceive`).  `Sound.perform` puts them together:
no allowed action faults, and each keeps the accounts.
-/

namespace NodeGrid.Exchange

variable {τ : Type} [Fintype τ]

/-- The accounts of a channel that no task but `users` takes part in, and the lines
of its semaphores. -/
structure Sound (exchange : Exchange τ) (users : Finset τ) : Prop where
  /-- Neither count can leave the machine word. -/
  room : exchange.channel.capacity + users.card ≤ 2 ^ 63 - 1
  idle_of_notMem : ∀ task ∉ users, exchange.phase task = .idle
  lines : Lines exchange.channel.emptySlots exchange.channel.filledSlots exchange.phase
  slots_eq : exchange.channel.emptySlots.permits.toInt =
    exchange.channel.capacity - exchange.channel.buffer.length - exchange.wokenSenders -
      exchange.parkedSenders + exchange.parkedReceivers + exchange.wokenReceivers
  values_eq : exchange.channel.filledSlots.permits.toInt =
    exchange.channel.buffer.length - exchange.wokenReceivers - exchange.parkedReceivers

variable {exchange : Exchange τ} {users : Finset τ}

/-- Senders are parked as the count of empty slots is below zero. -/
theorem Sound.parkedSenders_eq (hsound : exchange.Sound users) :
    (exchange.parkedSenders : ℤ) = max (-exchange.channel.emptySlots.permits.toInt) 0 := by
  rw [parkedSenders, ← hsound.lines.senders.waiting_eq_tally, hsound.lines.senders.waiting_eq]

theorem Sound.parkedReceivers_eq (hsound : exchange.Sound users) :
    (exchange.parkedReceivers : ℤ) = max (-exchange.channel.filledSlots.permits.toInt) 0 := by
  rw [parkedReceivers, ← hsound.lines.receivers.waiting_eq_tally,
    hsound.lines.receivers.waiting_eq]

/-- No more tasks are engaged than there are. -/
theorem Sound.engaged_le (hsound : exchange.Sound users) :
    exchange.channel.capacity + (exchange.parkedSenders + exchange.wokenSenders +
      exchange.parkedReceivers + exchange.wokenReceivers) ≤ 2 ^ 63 - 1 := by
  have hroom := hsound.room
  have hle := tally_add_le hsound.idle_of_notMem
  simp only [parkedSenders, wokenSenders, parkedReceivers, wokenReceivers]
  omega

theorem Sound.engaged_lt (hsound : exchange.Sound users) {task : τ} (huser : task ∈ users)
    (hidle : exchange.phase task = .idle) [DecidableEq τ] :
    exchange.channel.capacity + (exchange.parkedSenders + exchange.wokenSenders +
      exchange.parkedReceivers + exchange.wokenReceivers) < 2 ^ 63 - 1 := by
  have hroom := hsound.room
  have hlt := tally_add_lt hsound.idle_of_notMem huser hidle
  simp only [parkedSenders, wokenSenders, parkedReceivers, wokenReceivers]
  omega

/-- The count of empty slots cannot fall any further than there are tasks. -/
theorem Sound.slots_gt (hsound : exchange.Sound users) :
    -2 ^ 63 < exchange.channel.emptySlots.permits.toInt := by
  have hparked := hsound.parkedSenders_eq
  have hengaged := hsound.engaged_le
  omega

theorem Sound.values_gt (hsound : exchange.Sound users) :
    -2 ^ 63 < exchange.channel.filledSlots.permits.toInt := by
  have hparked := hsound.parkedReceivers_eq
  have hengaged := hsound.engaged_le
  omega

/-- Values lie only in slots: those of the channel and those that receivers
brought. -/
theorem Sound.length_buffer_le (hsound : exchange.Sound users) :
    exchange.channel.buffer.length + exchange.wokenSenders ≤
      exchange.channel.capacity + exchange.parkedReceivers + exchange.wokenReceivers := by
  have hparked := hsound.parkedSenders_eq
  have hslots := hsound.slots_eq
  omega

theorem sound_ofCapacity {capacity : ℕ} (hroom : capacity + users.card ≤ 2 ^ 63 - 1) :
    (ofCapacity capacity : Exchange τ).Sound users where
  room := hroom
  idle_of_notMem := fun _ _ => rfl
  lines :=
    ⟨(Semaphore.serves_ofCount (by omega)).congr fun task => by simp [ofCapacity],
      (Semaphore.serves_ofCount (by omega)).congr fun task => by simp [ofCapacity]⟩
  slots_eq := by
    have hcapacity : (Int64.ofNat capacity).toInt = capacity :=
      Int64.toInt_ofNat_of_lt (by omega)
    simp [ofCapacity, Channel.ofCapacity, Semaphore.ofCount, hcapacity, parkedSenders,
      wokenSenders, parkedReceivers, wokenReceivers, tally]
  values_eq := by
    simp [ofCapacity, Channel.ofCapacity, Semaphore.ofCount, parkedReceivers, wokenReceivers,
      tally]

variable [DecidableEq τ] {task : τ} {value : Int64}

/-! ## The counts after an action -/

/-- An action that wakes nobody moves its task from one count to another. -/
theorem counts_advance_none (exchange : Exchange τ) (channel : Channel τ) (task : τ)
    (phase : Phase) :
    (exchange.advance channel none task phase).parkedSenders +
          (exchange.phase task).isParkedSend.toNat =
        exchange.parkedSenders + phase.isParkedSend.toNat ∧
      (exchange.advance channel none task phase).wokenSenders +
          (exchange.phase task).isWokenSend.toNat =
        exchange.wokenSenders + phase.isWokenSend.toNat ∧
      (exchange.advance channel none task phase).parkedReceivers +
          (exchange.phase task).isParkedReceive.toNat =
        exchange.parkedReceivers + phase.isParkedReceive.toNat ∧
      (exchange.advance channel none task phase).wokenReceivers +
          (exchange.phase task).isWokenReceive.toNat =
        exchange.wokenReceivers + phase.isWokenReceive.toNat :=
  ⟨tally_advance_none .., tally_advance_none .., tally_advance_none .., tally_advance_none ..⟩

theorem counts_advance_sender (exchange : Exchange τ) (channel : Channel τ) {woken : Option τ}
    {task : τ} (hwoken : ∀ other, woken = some other → ∃ value, exchange.phase other = .parkedSend value)
    (hne : woken ≠ some task) (phase : Phase) :
    (exchange.advance channel woken task phase).parkedSenders +
          (exchange.phase task).isParkedSend.toNat + woken.toList.length =
        exchange.parkedSenders + phase.isParkedSend.toNat ∧
      (exchange.advance channel woken task phase).wokenSenders +
          (exchange.phase task).isWokenSend.toNat =
        exchange.wokenSenders + phase.isWokenSend.toNat + woken.toList.length ∧
      (exchange.advance channel woken task phase).parkedReceivers +
          (exchange.phase task).isParkedReceive.toNat =
        exchange.parkedReceivers + phase.isParkedReceive.toNat ∧
      (exchange.advance channel woken task phase).wokenReceivers +
          (exchange.phase task).isWokenReceive.toNat =
        exchange.wokenReceivers + phase.isWokenReceive.toNat := by
  cases woken with
  | none => exact counts_advance_none exchange channel task phase
  | some woken =>
      -- two tasks change their phases, and the tallies of both changes add up
      obtain ⟨value, hphase⟩ := hwoken woken rfl
      have hother : woken ≠ task := fun heq => hne (congrArg some heq)
      have hps := tally_advance_some Phase.isParkedSend exchange channel hother phase
      have hws := tally_advance_some Phase.isWokenSend exchange channel hother phase
      have hpr := tally_advance_some Phase.isParkedReceive exchange channel hother phase
      have hwr := tally_advance_some Phase.isWokenReceive exchange channel hother phase
      rw [hphase] at hps hws hpr hwr
      exact ⟨hps, hws, hpr, hwr⟩

theorem counts_advance_receiver (exchange : Exchange τ) (channel : Channel τ)
    {woken : Option τ} {task : τ}
    (hwoken : ∀ other, woken = some other → exchange.phase other = .parkedReceive)
    (hne : woken ≠ some task) (phase : Phase) :
    (exchange.advance channel woken task phase).parkedSenders +
          (exchange.phase task).isParkedSend.toNat =
        exchange.parkedSenders + phase.isParkedSend.toNat ∧
      (exchange.advance channel woken task phase).wokenSenders +
          (exchange.phase task).isWokenSend.toNat =
        exchange.wokenSenders + phase.isWokenSend.toNat ∧
      (exchange.advance channel woken task phase).parkedReceivers +
          (exchange.phase task).isParkedReceive.toNat + woken.toList.length =
        exchange.parkedReceivers + phase.isParkedReceive.toNat ∧
      (exchange.advance channel woken task phase).wokenReceivers +
          (exchange.phase task).isWokenReceive.toNat =
        exchange.wokenReceivers + phase.isWokenReceive.toNat + woken.toList.length := by
  cases woken with
  | none => exact counts_advance_none exchange channel task phase
  | some woken =>
      -- as for a sender, with the roles of the two directions exchanged
      have hphase := hwoken woken rfl
      have hother : woken ≠ task := fun heq => hne (congrArg some heq)
      have hps := tally_advance_some Phase.isParkedSend exchange channel hother phase
      have hws := tally_advance_some Phase.isWokenSend exchange channel hother phase
      have hpr := tally_advance_some Phase.isParkedReceive exchange channel hother phase
      have hwr := tally_advance_some Phase.isWokenReceive exchange channel hother phase
      rw [hphase] at hps hws hpr hwr
      exact ⟨hps, hws, hpr, hwr⟩

/-! ## Starting an operation -/

/-- A sender is charged for a slot, whether it holds the slot at once or waits. -/
theorem Sound.offer (hsound : exchange.Sound users) (channel : Channel τ) (phase : Phase)
    (huser : task ∈ users) (hidle : exchange.phase task = .idle)
    (hcapacity : channel.capacity = exchange.channel.capacity)
    (hcharged : channel.emptySlots.permits = exchange.channel.emptySlots.permits - 1)
    (hfilled : channel.filledSlots = exchange.channel.filledSlots)
    (hbuffer : channel.buffer = exchange.channel.buffer)
    (hsends : phase = .wokenSend value ∨ phase = .parkedSend value)
    (hlines : Lines channel.emptySlots channel.filledSlots
      (Function.update exchange.phase task phase)) :
    (exchange.advance channel none task phase).Sound users := by
  have hleft := toInt_sub_one exchange.channel.emptySlots.permits hsound.slots_gt
  have hslots := hsound.slots_eq
  have hvalues := hsound.values_eq
  obtain ⟨hps, hws, hpr, hwr⟩ := counts_advance_none exchange channel task phase
  refine ⟨?_, idle_advance hsound.idle_of_notMem channel _ (Or.inl huser), hlines, ?_, ?_⟩
  · rw [advance_channel, hcapacity]
    exact hsound.room
  -- parked or woken, the sender counts once against the slots
  · simp only [advance_channel, hcapacity, hcharged, hbuffer]
    rcases hsends with rfl | rfl <;> simp [hidle] at hps hws hpr hwr <;> omega
  · simp only [advance_channel, hfilled, hbuffer]
    rcases hsends with rfl | rfl <;> simp [hidle] at hpr hwr <;> omega

/-- A receiver announces itself, which may wake a sender, and is charged for a
value, whether it is promised the value at once or waits. -/
theorem Sound.announce (hsound : exchange.Sound users) (channel : Channel τ) (phase : Phase)
    (huser : task ∈ users) (hidle : exchange.phase task = .idle)
    (hcapacity : channel.capacity = exchange.channel.capacity)
    (hempty : channel.emptySlots = exchange.channel.emptySlots.signal.2)
    (hcharged : channel.filledSlots.permits = exchange.channel.filledSlots.permits - 1)
    (hbuffer : channel.buffer = exchange.channel.buffer)
    (hreceives : phase = .wokenReceive ∨ phase = .parkedReceive)
    (hlines : Lines channel.emptySlots channel.filledSlots
      (Function.update (wakeIn exchange.phase exchange.channel.emptySlots.signal.1) task phase)) :
    (exchange.advance channel exchange.channel.emptySlots.signal.1 task phase).Sound users := by
  have hslots := hsound.slots_eq
  have hvalues := hsound.values_eq
  have hparked := hsound.parkedSenders_eq
  have hengaged := hsound.engaged_lt huser hidle
  have hnext := toInt_add_one exchange.channel.emptySlots.permits (by omega)
  have hleft := toInt_sub_one exchange.channel.filledSlots.permits hsound.values_gt
  obtain ⟨hps, hws, hpr, hwr⟩ := counts_advance_sender exchange channel
    (fun other => hsound.lines.woken_sender) (hsound.lines.woken_slot_ne hidle) phase
  refine ⟨?_, idle_advance hsound.idle_of_notMem channel _ (Or.inl huser), hlines, ?_, ?_⟩
  · rw [advance_channel, hcapacity]
    exact hsound.room
  -- the receiver brings a slot, whether or not a sender was woken for it
  · simp only [advance_channel, hcapacity, hempty, hbuffer, Semaphore.permits_signal]
    rcases hreceives with rfl | rfl <;> simp [hidle] at hps hws hpr hwr <;> omega
  · simp only [advance_channel, hcharged, hbuffer]
    rcases hreceives with rfl | rfl <;> simp [hidle] at hpr hwr <;> omega

/-! ## Ending an operation -/

/-- A woken sender fills its slot, which may wake a receiver. -/
theorem Sound.deliver (hsound : exchange.Sound users) (hwoken : exchange.phase task = .wokenSend value) :
    (exchange.advance (exchange.channel.deliver value).2 (exchange.channel.deliver value).1 task
      .idle).Sound users := by
  have hslots := hsound.slots_eq
  have hvalues := hsound.values_eq
  have hparked := hsound.parkedReceivers_eq
  have hbuffer := hsound.length_buffer_le
  have hengaged := hsound.engaged_le
  have hpos : 0 < exchange.wokenSenders := tally_pos task (by simp [hwoken])
  have hnext := toInt_add_one exchange.channel.filledSlots.permits (by omega)
  -- the value goes to a receiver, so not to the sender itself
  have hne : exchange.channel.filledSlots.signal.1 ≠ some task :=
    hsound.lines.woken_value_ne (by simp [hwoken])
  obtain ⟨hps, hws, hpr, hwr⟩ := counts_advance_receiver exchange
    (exchange.channel.deliver value).2 (fun other => hsound.lines.woken_receiver) hne .idle
  simp [hwoken] at hps hws hpr hwr
  refine ⟨hsound.room, idle_advance hsound.idle_of_notMem _ _ (Or.inr rfl), ?_, ?_, ?_⟩
  · -- the lines: a permit for values is given, and the sender becomes idle
    have hlines := hsound.lines.signalValue (by omega)
    exact hlines.update (by simp [wakeIn_of_ne hne, hwoken]) (by simp [wakeIn_of_ne hne, hwoken])
  · simp only [Channel.deliver, advance_channel, List.length_append, List.length_singleton]
      at hps hws hpr hwr ⊢
    omega
  · simp only [Channel.deliver, advance_channel, List.length_append, List.length_singleton,
      Semaphore.permits_signal] at hps hws hpr hwr ⊢
    omega

/-- A woken receiver finds a value and takes it. -/
theorem Sound.take (hsound : exchange.Sound users) (hwoken : exchange.phase task = .wokenReceive) :
    ∃ taken channel, exchange.channel.take = .ok (taken, channel) ∧
      (exchange.advance channel none task .idle).Sound users := by
  have hslots := hsound.slots_eq
  have hvalues := hsound.values_eq
  have hparked := hsound.parkedReceivers_eq
  have hpos : 0 < exchange.wokenReceivers := tally_pos task (by simp [hwoken])
  cases hbuffer : exchange.channel.buffer with
  -- an empty buffer has no value to promise
  | nil =>
      rw [hbuffer] at hvalues
      simp only [List.length_nil] at hvalues
      omega
  | cons taken rest =>
      refine ⟨taken, { exchange.channel with buffer := rest }, by simp [Channel.take, hbuffer], ?_⟩
      obtain ⟨hps, hws, hpr, hwr⟩ := counts_advance_none exchange
        { exchange.channel with buffer := rest } task .idle
      simp [hwoken] at hps hws hpr hwr
      simp only [hbuffer, List.length_cons] at hslots hvalues
      refine ⟨hsound.room, idle_advance hsound.idle_of_notMem _ _ (Or.inr rfl), ?_, ?_, ?_⟩
      · exact hsound.lines.update (by simp [hwoken]) (by simp [hwoken])
      · simp only [advance_channel]
        omega
      · simp only [advance_channel]
        omega

/-! ## Withdrawing an operation -/

/-- A parked sender gives back the slot it was charged for. -/
theorem Sound.cancelSend {channel : Channel τ} (hsound : exchange.Sound users)
    (hcancel : exchange.channel.cancelSend task = some channel) :
    (exchange.advance channel none task .idle).Sound users ∧
      ∃ value, exchange.phase task = .parkedSend value := by
  obtain ⟨rest, hrest, rfl⟩ := Option.map_eq_some_iff.mp hcancel
  have hslots := hsound.slots_eq
  have hvalues := hsound.values_eq
  have hparkedCount := hsound.parkedSenders_eq
  -- only a parked sender stands in the line that it leaves
  obtain ⟨value, hphase⟩ := hsound.lines.cancelled_sender hrest
  have hpos : 0 < exchange.parkedSenders := tally_pos task (by simp [hphase])
  have hnext := toInt_add_one exchange.channel.emptySlots.permits (by omega)
  obtain ⟨hps, hws, hpr, hwr⟩ := counts_advance_none exchange
    { exchange.channel with emptySlots := rest } task .idle
  simp [hphase] at hps hws hpr hwr
  refine ⟨⟨hsound.room, idle_advance hsound.idle_of_notMem _ _ (Or.inr rfl), ?_, ?_, ?_⟩, value,
    hphase⟩
  · exact hsound.lines.cancelSlot (by omega) hrest ⟨value, hphase⟩
  · simp only [advance_channel, Semaphore.permits_cancel hrest]
    omega
  · simp only [advance_channel]
    omega

/-- A parked receiver gives back the value it was charged for, and takes its
slot back with it. -/
theorem Sound.cancelReceive {channel : Channel τ} (hsound : exchange.Sound users)
    (hcancel : exchange.channel.cancelReceive task = some channel) :
    (exchange.advance channel none task .idle).Sound users ∧
      exchange.phase task = .parkedReceive := by
  unfold Channel.cancelReceive at hcancel
  split at hcancel
  · cases hcancel
  · rename_i hfree
    obtain ⟨rest, hrest, rfl⟩ := Option.map_eq_some_iff.mp hcancel
    -- a slot is free, so that it can be taken back and nobody is parked for it
    rw [Int64.le_iff_toInt_le, Int64.toInt_zero, not_le] at hfree
    have hslots := hsound.slots_eq
    have hvalues := hsound.values_eq
    have hparkedCount := hsound.parkedReceivers_eq
    have hphase := hsound.lines.cancelled_receiver hrest
    have hpos : 0 < exchange.parkedReceivers := tally_pos task (by simp [hphase])
    have hnext := toInt_add_one exchange.channel.filledSlots.permits (by omega)
    have hleft := toInt_sub_one exchange.channel.emptySlots.permits (by omega)
    obtain ⟨hps, hws, hpr, hwr⟩ := counts_advance_none exchange
      { exchange.channel with
        emptySlots := exchange.channel.emptySlots.retract, filledSlots := rest } task .idle
    simp [hphase] at hps hws hpr hwr
    refine ⟨⟨hsound.room, idle_advance hsound.idle_of_notMem _ _ (Or.inr rfl), ?_, ?_, ?_⟩, hphase⟩
    · exact (hsound.lines.cancelValue (by omega) hrest hphase).takeSlot hfree
    · simp only [advance_channel, Semaphore.permits_retract]
      omega
    · simp only [advance_channel, Semaphore.permits_cancel hrest]
      omega

/-- A parked receiver is refused exactly while senders that have been woken hold all slots,
those of the channel and those that the parked receivers announced. -/
theorem Sound.cancelReceive_eq_none_iff (hsound : exchange.Sound users)
    (hparked : exchange.phase task = .parkedReceive) :
    exchange.channel.cancelReceive task = none ↔
      exchange.wokenSenders = exchange.channel.capacity + exchange.parkedReceivers := by
  have hslots := hsound.slots_eq
  have hvalues := hsound.values_eq
  have hsenders := hsound.parkedSenders_eq
  have hreceivers := hsound.parkedReceivers_eq
  have hpos : 0 < exchange.parkedReceivers := tally_pos task (by simp [hparked])
  -- the receiver stands in line, so that only a lack of slots can keep it there
  have hline : exchange.channel.filledSlots.cancel task ≠ none := by
    rw [ne_eq, hsound.lines.receivers.cancel_eq_none_iff, hparked]
    simp
  have hrefused : exchange.channel.cancelReceive task = none ↔
      exchange.channel.emptySlots.permits.toInt ≤ 0 := by
    rw [← Int64.toInt_zero, ← Int64.le_iff_toInt_le, Channel.cancelReceive]
    split
    · rename_i hfull
      exact iff_of_true rfl hfull
    · rename_i hfree
      exact iff_of_false (by rwa [Option.map_eq_none_iff]) hfree
  -- while a receiver is parked, every value in the buffer is promised to another one
  rw [hrefused]
  omega

theorem Sound.exists_wokenSend_of_refused (hsound : exchange.Sound users)
    (hparked : exchange.phase task = .parkedReceive)
    (hrefused : exchange.channel.cancelReceive task = none) :
    ∃ other value, exchange.phase other = .wokenSend value := by
  have hpos : 0 < exchange.parkedReceivers := tally_pos task (by simp [hparked])
  have hheld := (hsound.cancelReceive_eq_none_iff hparked).mp hrefused
  have hwoken : 0 < exchange.wokenSenders := by omega
  obtain ⟨other, hother⟩ := Finset.card_pos.mp hwoken
  exact ⟨other, Phase.isWokenSend_iff.mp (Finset.mem_filter.mp hother).2⟩

/-! ## Actions -/

theorem Sound.send {status : SendStatus} {woken : Option τ} {channel : Channel τ}
    (hsound : exchange.Sound users) (huser : task ∈ users) (hidle : exchange.phase task = .idle)
    (hsend : exchange.channel.send value task = (status, woken, channel)) :
    (exchange.advance channel woken task (sendPhase value status)).Sound users ∧
      ∀ other, woken = some other → exchange.phase other = .parkedReceive := by
  by_cases hfree : 0 < exchange.channel.emptySlots.permits.toInt
  · -- the sender holds the slot for a moment, and then fills it
    have hheld := hsound.offer
      { exchange.channel with
        emptySlots :=
          { exchange.channel.emptySlots with
            permits := exchange.channel.emptySlots.permits - 1 }
        lastSent := some value }
      (.wokenSend value) huser hidle rfl rfl rfl rfl (Or.inl rfl)
      ((hsound.lines.takeSlot hfree).update (by simp [hidle]) (by simp [hidle]))
    have hfilled := hheld.deliver (advance_phase_self ..)
    rw [advance_advance] at hfilled
    simp only [Channel.send, Semaphore.wait_of_pos hfree] at hsend
    cases hsend
    exact ⟨hfilled, fun other => hsound.lines.woken_receiver⟩
  · -- no slot is free: the sender is charged for one and lines up for it
    have hwaiting := hsound.offer
      { exchange.channel with
        emptySlots :=
          { permits := exchange.channel.emptySlots.permits - 1
            waiters := exchange.channel.emptySlots.waiters ++ [task] }
        lastSent := some value }
      (.parkedSend value) huser hidle rfl rfl rfl rfl (Or.inr rfl)
      (hsound.lines.awaitSlot hidle hsound.slots_gt (by omega) value)
    simp only [Channel.send, Semaphore.wait_of_nonpos hsound.slots_gt (not_lt.mp hfree)] at hsend
    cases hsend
    exact ⟨hwaiting, fun other hother => by cases hother⟩

theorem Sound.receive (hsound : exchange.Sound users) (huser : task ∈ users)
    (hidle : exchange.phase task = .idle) :
    ∃ status woken channel, exchange.channel.receive task = .ok (status, woken, channel) ∧
      (exchange.advance channel woken task (receivePhase status)).Sound users ∧
      ∀ other, woken = some other → ∃ value, exchange.phase other = .parkedSend value := by
  have hne := hsound.lines.woken_slot_ne hidle
  have hengaged := hsound.engaged_lt huser hidle
  have hslots := hsound.slots_eq
  have hparked := hsound.parkedSenders_eq
  -- the receiver announces itself first, which may wake a sender
  have hsignalled := hsound.lines.signalSlot (by omega)
  by_cases hfree : 0 < exchange.channel.filledSlots.permits.toInt
  · -- the receiver is promised the value for a moment, and then takes it
    have hpromised := hsound.announce
      { exchange.channel with
        emptySlots := exchange.channel.emptySlots.signal.2
        filledSlots :=
          { exchange.channel.filledSlots with
            permits := exchange.channel.filledSlots.permits - 1 } }
      .wokenReceive huser hidle rfl rfl rfl rfl (Or.inl rfl)
      ((hsignalled.takeValue hfree).update (by simp [wakeIn_of_ne hne, hidle])
        (by simp [wakeIn_of_ne hne, hidle]))
    obtain ⟨taken, channel, htake, htaken⟩ :=
      hpromised.take (advance_phase_self ..)
    rw [advance_advance_none] at htaken
    refine ⟨.received taken, _, channel, ?_, htaken, fun other => hsound.lines.woken_sender⟩
    simp only [advance_channel] at htake
    simp only [Channel.receive, Semaphore.wait_of_pos hfree, htake, bind, Except.bind, pure,
      Except.pure]
  · -- no value is there: the receiver lines up for the next one
    have hwaiting := hsound.announce
      { exchange.channel with
        emptySlots := exchange.channel.emptySlots.signal.2
        filledSlots :=
          { permits := exchange.channel.filledSlots.permits - 1
            waiters := exchange.channel.filledSlots.waiters ++ [task] } }
      .parkedReceive huser hidle rfl rfl rfl rfl (Or.inr rfl)
      (hsignalled.awaitValue (by rw [wakeIn_of_ne hne, hidle]) hsound.values_gt
        (not_lt.mp hfree))
    refine ⟨.blocked, _, _, ?_, hwaiting, fun other => hsound.lines.woken_sender⟩
    simp only [Channel.receive, Semaphore.wait_of_nonpos hsound.values_gt (not_lt.mp hfree)]

/-- No action that the protocol allows faults, and each keeps the accounts. -/
theorem Sound.perform (hsound : exchange.Sound Finset.univ) {action : Action τ}
    (hallowed : exchange.Allows action) :
    ∃ reply next, exchange.perform action = .ok (reply, next) ∧ next.Sound Finset.univ := by
  cases action with
  | send task value =>
      exact ⟨_, _, rfl, (hsound.send (Finset.mem_univ task) hallowed rfl).1⟩
  | finishSend task value =>
      exact ⟨_, _, rfl, hsound.deliver hallowed⟩
  | receive task =>
      obtain ⟨status, woken, channel, hreceive, hnext, _⟩ :=
        hsound.receive (Finset.mem_univ task) hallowed
      refine ⟨.ofReceive status, _, ?_, hnext⟩
      simp only [Exchange.perform, hreceive, bind, Except.bind, pure, Except.pure]
  | finishReceive task =>
      -- a woken receiver finds its value, since the buffer holds one for each of them
      obtain ⟨taken, channel, htake, hnext⟩ := hsound.take hallowed
      refine ⟨.received taken, _, ?_, hnext⟩
      simp only [Exchange.perform, Channel.finishReceive, htake, bind, Except.bind, pure,
        Except.pure]
  | cancelSend task =>
      cases hcancel : exchange.channel.cancelSend task with
      | none => exact ⟨.refused, exchange, by simp only [Exchange.perform, hcancel], hsound⟩
      | some channel =>
          exact ⟨.withdrawn, _, by simp only [Exchange.perform, hcancel],
            (hsound.cancelSend hcancel).1⟩
  | cancelReceive task =>
      cases hcancel : exchange.channel.cancelReceive task with
      | none => exact ⟨.refused, exchange, by simp only [Exchange.perform, hcancel], hsound⟩
      | some channel =>
          exact ⟨.withdrawn, _, by simp only [Exchange.perform, hcancel],
            (hsound.cancelReceive hcancel).1⟩

theorem Run.sound {capacity : ℕ} {events : List (Event τ)}
    (hroom : capacity + Fintype.card τ ≤ 2 ^ 63 - 1) (hrun : Run capacity events exchange) :
    exchange.Sound Finset.univ := by
  induction hrun with
  | start => exact sound_ofCapacity hroom
  | act hrun hallowed hperform ih =>
      obtain ⟨reply, next, hnext, hsound⟩ := ih.perform hallowed
      rw [hperform] at hnext
      cases hnext
      exact hsound

end NodeGrid.Exchange

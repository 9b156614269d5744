import NodeGrid.Proofs.Fabric.Order

/-!
# Who may go first

What a task does in one go may touch two channels: it receives a value on one and
sends it on another.  Whether this keeps the calls in order depends on the tasks that
are ready and have not been resumed.

A ready receiver is harmless as long as its value is not the only one that is free
(`IsPromised`).  The way is *clear* for a task that begins a step if all ready tasks
that share a channel with it are such receivers (`Clear`); a task that is resumed
shares no channel with those that are ready after it.  What a task does in one go
then keeps the calls in order, and leaves the way clear for all others
(`Ordered.begins`, `Ordered.resumes`, `Ordered.withdraws`).
-/

namespace NodeGrid.Fabric

variable {τ : Type} {n : ℕ}

/-- The operation of a woken task is a receive, and no value is free but those that
are promised. -/
def IsPromised (fabric : Fabric τ n) : Engagement n → Prop
  | .sending _ _ => False
  | .receiving k => (fabric.channel k).filledSlots.permits.toInt ≤ 0

/-- Of the ready tasks, only receivers that have been promised their value share a
channel with `task`. -/
def Clear (fabric : Fabric τ n) (users : Fin n → Finset τ) (engaged : τ → Option (Engagement n))
    (task : τ) : Prop :=
  ∀ other ∈ fabric.ready, other ≠ task → ∀ operation, engaged other = some operation →
    task ∈ users operation.channel → fabric.IsPromised operation

/-- No ready sender is overtaken by a send of `task`. -/
def MaySend (fabric : Fabric τ n) (users : Fin n → Finset τ)
    (engaged : τ → Option (Engagement n)) (task : τ) : Prop :=
  ∀ k, task ∈ users k → 0 < (fabric.channel k).emptySlots.permits.toInt →
    ∀ other ∈ fabric.ready, senderCall engaged k other = none

variable {fabric rest : Fabric τ n} {users : Fin n → Finset τ}
  {engaged : τ → Option (Engagement n)} {log : Log τ n} {k : Fin n} {task other : τ}
  {woken : Option τ} {new : Option (Engagement n)} {channel : Channel τ} {value : Int64}
  {operation : Engagement n}

theorem Clear.sender_eq_none (hclear : fabric.Clear users engaged task) (huser : task ∈ users k)
    (hmem : other ∈ fabric.ready) (hne : other ≠ task) : senderCall engaged k other = none := by
  cases hengaged : engaged other with
  | none => simp [senderCall, hengaged]
  | some operation =>
      cases operation with
      | receiving j => simp [senderCall, hengaged]
      | sending j value =>
          by_cases hj : j = k
          · subst hj
            exact (hclear other hmem hne _ hengaged huser).elim
          · simp [senderCall, hengaged, Engagement.sendCall?, hj]

theorem Clear.receiver_eq_none (hclear : fabric.Clear users engaged task) (huser : task ∈ users k)
    (hfree : 0 < (fabric.channel k).filledSlots.permits.toInt)
    (hmem : other ∈ fabric.ready) (hne : other ≠ task) : receiverCall engaged k other = none := by
  cases hengaged : engaged other with
  | none => simp [receiverCall, hengaged]
  | some operation =>
      cases operation with
      | sending j value => simp [receiverCall, hengaged]
      | receiving j =>
          by_cases hj : j = k
          · subst hj
            have hpromised : (fabric.channel j).filledSlots.permits.toInt ≤ 0 :=
              hclear other hmem hne _ hengaged huser
            omega
          · simp [receiverCall, hengaged, Engagement.receiveCall?, hj]

theorem Clear.maySend (hclear : fabric.Clear users engaged task) (hout : task ∉ fabric.ready) :
    fabric.MaySend users engaged task :=
  fun _ huser _ _ hmem => hclear.sender_eq_none huser hmem (ne_of_mem_of_not_mem hmem hout)

section Operations

variable [DecidableEq τ]

/-- What is promised on one channel does not depend on the others. -/
theorem isPromised_after_of_ne (hchannel : operation.channel ≠ k) :
    (fabric.after k task woken channel).IsPromised operation ↔ fabric.IsPromised operation := by
  cases operation with
  | sending j value => exact Iff.rfl
  | receiving j =>
      have hj : j ≠ k := hchannel
      rw [IsPromised, IsPromised, channel_update_of_ne _ _ _ hj]
      rfl

theorem isPromised_after_self :
    (fabric.after k task woken channel).IsPromised (.receiving k) ↔
      channel.filledSlots.permits.toInt ≤ 0 := by
  rw [IsPromised, channel_update_self]

/-- What is promised stays so if it does on the channel of an operation. -/
theorem isPromised_after
    (hvalues : (fabric.channel k).filledSlots.permits.toInt ≤ 0 →
      channel.filledSlots.permits.toInt ≤ 0)
    (hpromised : fabric.IsPromised operation) :
    (fabric.after k task woken channel).IsPromised operation := by
  by_cases hchannel : operation.channel = k
  · subst hchannel
    cases operation with
    | sending j value => exact hpromised
    | receiving j => exact isPromised_after_self.mpr (hvalues hpromised)
  · exact (isPromised_after_of_ne hchannel).mpr hpromised

theorem mem_ready_after : other ∈ (fabric.after k task woken channel).ready ↔
    other ∈ fabric.ready.erase task ∨ woken = some other := by
  rw [ready_update, ready_withReady, List.mem_append, Option.mem_toList]

/-! ## The operations that a step is made of -/

theorem after_of_send {status : SendStatus} (hready : task ∉ fabric.ready)
    (hsend : fabric.send k value task = (status, rest)) :
    ∃ woken channel, (fabric.channel k).send value task = (status, woken, channel) ∧
      rest = fabric.after k task woken channel := by
  cases hsend
  refine ⟨_, _, rfl, ?_⟩
  rw [after, List.erase_of_not_mem hready]
  rfl

theorem after_of_receive {status : ReceiveStatus} (hready : task ∉ fabric.ready)
    (hreceive : fabric.receive k task = .ok (status, rest)) :
    ∃ woken channel, (fabric.channel k).receive task = .ok (status, woken, channel) ∧
      rest = fabric.after k task woken channel := by
  obtain ⟨⟨answer, woken, channel⟩, hchannel, hpair⟩ := bind_eq_ok.mp hreceive
  cases hpair
  refine ⟨woken, channel, hchannel, ?_⟩
  rw [after, List.erase_of_not_mem hready]
  rfl

theorem after_of_finishSend {ready : List τ} (hready : fabric.ready = task :: ready) :
    ∃ woken channel, (fabric.channel k).finishSend value = (woken, channel) ∧
      (fabric.withReady ready).finishSend k value = fabric.after k task woken channel := by
  refine ⟨_, _, rfl, ?_⟩
  rw [after, (erase_ready hready).2]
  rfl

theorem after_of_finishReceive {ready : List τ} (hready : fabric.ready = task :: ready)
    (hfinish : (fabric.withReady ready).finishReceive k = .ok (value, rest)) :
    ∃ channel, (fabric.channel k).finishReceive = .ok (value, channel) ∧
      rest = fabric.after k task none channel := by
  obtain ⟨⟨taken, channel⟩, hchannel, hpair⟩ := bind_eq_ok.mp hfinish
  cases hpair
  refine ⟨channel, hchannel, ?_⟩
  rw [after, (erase_ready hready).2]

theorem after_of_cancelSend (hready : task ∉ fabric.ready)
    (hcancel : fabric.cancelSend k task = some rest) :
    ∃ channel, (fabric.channel k).cancelSend task = some channel ∧
      rest = fabric.after k task none channel := by
  obtain ⟨channel, hchannel, rfl⟩ := Option.map_eq_some_iff.mp hcancel
  refine ⟨channel, hchannel, ?_⟩
  rw [after, List.erase_of_not_mem hready]
  rfl

theorem after_of_cancelReceive (hready : task ∉ fabric.ready)
    (hcancel : fabric.cancelReceive k task = some rest) :
    ∃ channel, (fabric.channel k).cancelReceive task = some channel ∧
      rest = fabric.after k task none channel := by
  obtain ⟨channel, hchannel, rfl⟩ := Option.map_eq_some_iff.mp hcancel
  refine ⟨channel, hchannel, ?_⟩
  rw [after, List.erase_of_not_mem hready]
  rfl

/-! ## What holds after a step -/

/-- What holds after a task has done something in one go: the calls are in order, and
the way is as clear for all others as it was. -/
structure Advances (fabric : Fabric τ n) (users : Fin n → Finset τ)
    (engaged : τ → Option (Engagement n)) (task : τ) (log : Log τ n) (rest : Fabric τ n)
    (new : Option (Engagement n)) : Prop where
  ordered : rest.Ordered users (Function.update engaged task new) log
  clear : ∀ other, other ≠ task → fabric.Clear users engaged other →
    rest.Clear users (Function.update engaged task new) other

/-- What holds after a task has gone on: it has woken only receivers, which have been
promised their values, and what has been promised to others stays so. -/
structure Hands (fabric : Fabric τ n) (users : Fin n → Finset τ)
    (engaged : τ → Option (Engagement n)) (task : τ) (rest : Fabric τ n) : Prop where
  woken : ∃ woken : List τ, rest.ready = fabric.ready.erase task ++ woken ∧
    ∀ other ∈ woken, other ≠ task ∧
      ∀ operation, engaged other = some operation → rest.IsPromised operation
  promised : ∀ operation, task ∉ users operation.channel → fabric.IsPromised operation →
    rest.IsPromised operation

theorem Advances.trans {between : Fabric τ n} {middle : Option (Engagement n)} {later : Log τ n}
    (hfirst : fabric.Advances users engaged task log between middle)
    (hsecond : between.Advances users (Function.update engaged task middle) task later rest new) :
    fabric.Advances users engaged task later rest new where
  ordered := by
    have hordered := hsecond.ordered
    rwa [Function.update_idem] at hordered
  clear other hne hclear := by
    have hrest := hsecond.clear other hne (hfirst.clear other hne hclear)
    rwa [Function.update_idem] at hrest

/-- An operation that wakes only receivers has promised them their values. -/
theorem Touch.hands (htouch : fabric.Touch users engaged k task new woken)
    (hwoken : ∀ other, woken = some other → engaged other = some (.receiving k))
    (hvalues : ∀ other, woken = some other → channel.filledSlots.permits.toInt ≤ 0) :
    fabric.Hands users engaged task (fabric.after k task woken channel) where
  woken := by
    refine ⟨woken.toList, rfl, fun other hmem => ?_⟩
    have hother := Option.mem_toList.mp hmem
    refine ⟨(htouch.woken other hother).1, ?_⟩
    rw [hwoken other hother]
    rintro _ ⟨⟩
    exact isPromised_after_self.mpr (hvalues other hother)
  promised operation huser hpromised :=
    (isPromised_after_of_ne fun heq => huser (heq ▸ htouch.user)).mpr hpromised

/-- Of two operations of a task, the first may wake nobody. -/
theorem Hands.trans {between : Fabric τ n} {middle : Option (Engagement n)}
    (hfirst : fabric.Hands users engaged task between)
    (hready : between.ready = fabric.ready.erase task) (hnodup : fabric.ready.Nodup)
    (hsecond : between.Hands users (Function.update engaged task middle) task rest) :
    fabric.Hands users engaged task rest where
  woken := by
    obtain ⟨woken, hrest, hwoken⟩ := hsecond.woken
    refine ⟨woken, ?_, fun other hmem => ?_⟩
    · rw [hrest, hready, List.erase_of_not_mem hnodup.not_mem_erase]
    · obtain ⟨hne, hpromised⟩ := hwoken other hmem
      rw [Function.update_of_ne hne] at hpromised
      exact ⟨hne, hpromised⟩
  promised operation huser hpromised :=
    hsecond.promised operation huser (hfirst.promised operation huser hpromised)

/-- A task that gives up its step leaves the way as clear as it was. -/
theorem Clear.withdrawn (hclear : fabric.Clear users engaged other) (hout : task ∉ fabric.ready)
    (hvalues : (fabric.channel k).filledSlots.permits.toInt ≤ 0 →
      channel.filledSlots.permits.toInt ≤ 0) :
    (fabric.after k task none channel).Clear users (Function.update engaged task new) other := by
  intro third hmem hthird operation hengaged huser
  have hready : third ∈ fabric.ready := by simpa [List.erase_of_not_mem hout] using hmem
  rw [Function.update_of_ne (ne_of_mem_of_not_mem hready hout)] at hengaged
  exact isPromised_after hvalues (hclear third hready hthird operation hengaged huser)

/-- Whoever is resumed shares no channel with those that are ready after it. -/
theorem Ordered.maySend_of_resumed {ready : List τ} (hordered : fabric.Ordered users engaged log)
    (hnodup : fabric.ready.Nodup) (hready : fabric.ready = task :: ready) :
    (fabric.after k task none channel).MaySend users (Function.update engaged task new) task := by
  intro j hj _ third hmem
  have hapart := hordered.apart
  rw [hready] at hnodup hapart
  have hthird : third ∈ ready := by simpa [hready] using hmem
  have hne : third ≠ task := ne_of_mem_of_not_mem hthird (List.nodup_cons.mp hnodup).1
  have hother := (List.pairwise_cons.mp hapart).1 third hthird
  rw [senderCall, Function.update_of_ne hne]
  rcases hengaged : engaged third with - | ⟨i, offered⟩ | i
  · rfl
  · have hij : i ≠ j := by
      rintro rfl
      exact hother _ hengaged hj
    exact if_neg hij
  · rfl

/-- To begin a step is not a call. -/
theorem Ordered.begin (hordered : fabric.Ordered users engaged log) :
    fabric.Ordered users engaged (log ++ [(task, .begin)]) where
  sends k := by
    rw [sendCalls_concat_of_none rfl, sentOn_concat]
    simpa [Deed.comm?] using hordered.sends k
  receives k := by
    rw [receiveCalls_concat_of_none rfl, receivedOn_concat]
    simpa [Deed.comm?] using hordered.receives k
  apart := hordered.apart

variable [Fintype τ] {ready : List τ} {deeds : List (Deed n)} {reach : Fin n → Prop}

/-- What a task does leaves the way clear for every other task. -/
theorem Clear.touch (hclear : fabric.Clear users engaged other) (hsound : fabric.Sound users engaged)
    (hcard : (users k).card ≤ 2) (htouch : fabric.Touch users engaged k task new woken)
    (hne : other ≠ task) :
    (fabric.after k task woken channel).Clear users (Function.update engaged task new) other := by
  intro third hmem hthird operation hengaged huser
  rcases mem_ready_after.mp hmem with hold | hwoken
  · have hready := List.mem_of_mem_erase hold
    have htask : third ≠ task := fun heq => hsound.ready_nodup.not_mem_erase (heq ▸ hold)
    rw [Function.update_of_ne htask] at hengaged
    have hthirdUser := hsound.user_of_engaged hengaged
    have hchannel : operation.channel ≠ k := by
      rintro rfl
      exact not_mem_of_card hcard htouch.user hthirdUser htask.symm hne hthird.symm huser
    exact (isPromised_after_of_ne hchannel).mpr (hclear third hready hthird operation hengaged huser)
  -- whoever is woken shares its channel with the task that wakes it and with nobody else
  · obtain ⟨htask, -, hwokenUser, old, hold, hchannel⟩ := htouch.woken third hwoken
    rw [Function.update_of_ne htask, hold] at hengaged
    cases hengaged
    rw [hchannel] at huser
    exact (not_mem_of_card hcard htouch.user hwokenUser htask.symm hne hthird.symm huser).elim

/-- A task that has received a value at once has woken at most a sender whose slot is
not free. -/
theorem Clear.maySend_of_received (hclear : fabric.Clear users engaged task)
    (hsound : fabric.Sound users engaged) (huser : task ∈ users k) (hidle : engaged task = none)
    (hreceive : (fabric.channel k).receive task = .ok (.received value, woken, channel)) :
    (fabric.after k task woken channel).MaySend users (Function.update engaged task none) task := by
  obtain ⟨htouch, hsenders⟩ := hsound.touch_receive huser hidle hreceive
  obtain ⟨hsignal, -⟩ := Channel.receive_cases hreceive
  rw [← hidle, Function.update_eq_self]
  intro j hj hpos third hmem
  rcases mem_ready_after.mp hmem with hold | hwoken
  · have hne : third ≠ task := fun heq => hsound.ready_nodup.not_mem_erase (heq ▸ hold)
    exact hclear.sender_eq_none hj (List.mem_of_mem_erase hold) hne
  · -- the woken sender waits on the channel of the receive, whose slot is for it
    obtain ⟨offered, hengaged⟩ := hsenders third hwoken
    by_cases hjk : j = k
    · subst hjk
      rw [channel_update_self] at hpos
      have hnonpos := (hsound.exchange j).lines.senders.permits_signal_nonpos
        ((congrArg Prod.fst hsignal).trans hwoken)
      rw [show (fabric.exchange engaged j).channel.emptySlots.signal.2 = channel.emptySlots from
        congrArg Prod.snd hsignal] at hnonpos
      omega
    · simp [senderCall, hengaged, Engagement.sendCall?, Ne.symm hjk]

/-- A receiver that is woken by a value has been promised that value. -/
theorem Sound.values_of_signal {filledSlots : Semaphore τ} (hsound : fabric.Sound users engaged)
    (hsignal : (fabric.channel k).filledSlots.signal = (woken, filledSlots)) :
    ∀ other, woken = some other → filledSlots.permits.toInt ≤ 0 := by
  intro other hother
  have hnonpos := (hsound.exchange k).lines.receivers.permits_signal_nonpos
    ((congrArg Prod.fst hsignal).trans hother)
  rwa [show (fabric.exchange engaged k).channel.filledSlots.signal.2 = filledSlots from
    congrArg Prod.snd hsignal] at hnonpos

/-- A task that has all it needs wakes at most a receiver. -/
theorem Sound.hands_of_offers (hsound : fabric.Sound users engaged)
    (hreach : ∀ k, reach k → task ∈ users k) (hidle : engaged task = none)
    (hoffers : fabric.Offers reach task deeds rest new) :
    fabric.Hands users engaged task rest := by
  have hout := hsound.not_mem_ready hidle
  cases hoffers with
  | nothing =>
      refine ⟨⟨[], ?_, by simp⟩, fun operation _ hpromised => hpromised⟩
      rw [List.erase_of_not_mem hout, List.append_nil]
  | @send k value status _ hk hsend =>
      obtain ⟨woken, channel, hchannel, rfl⟩ := after_of_send hout hsend
      obtain ⟨htouch, hreceivers⟩ := hsound.touch_send (hreach k hk) hidle hchannel
      refine htouch.hands hreceivers ?_
      rcases Channel.send_cases hchannel with ⟨-, -, hsignal⟩ | ⟨-, rfl, -, -⟩
      · exact hsound.values_of_signal hsignal
      · simp

/-! ## Steps -/

theorem Ordered.offers (hordered : fabric.Ordered users engaged log)
    (hsound : fabric.Sound users engaged) (hcard : ∀ k, (users k).card ≤ 2)
    (hreach : ∀ k, reach k → task ∈ users k) (hidle : engaged task = none)
    (hmay : fabric.MaySend users engaged task)
    (hoffers : fabric.Offers reach task deeds rest new) :
    fabric.Advances users engaged task (log ++ logged task deeds) rest new := by
  cases hoffers with
  | nothing =>
      -- without an offer, nothing is changed
      have hsame : Function.update engaged task none = engaged := by
        rw [← hidle, Function.update_eq_self]
      constructor
      · rw [hsame]
        exact (List.append_nil log).symm ▸ hordered
      · intro other _ hclear
        rwa [hsame]
  | @send k value status _ hk hsend =>
      have huser := hreach k hk
      obtain ⟨woken, channel, hchannel, rfl⟩ := after_of_send (hsound.not_mem_ready hidle) hsend
      obtain ⟨htouch, -⟩ := hsound.touch_send huser hidle hchannel
      constructor
      · exact hordered.send hsound (hcard k) huser hidle (hmay k huser) hchannel
      · exact fun other hne hclear => hclear.touch hsound (hcard k) htouch hne

/-- A task for which the way is clear can begin a step. -/
theorem Ordered.begins (hordered : fabric.Ordered users engaged log)
    (hsound : fabric.Sound users engaged) (hcard : ∀ k, (users k).card ≤ 2)
    (hreach : ∀ k, reach k → task ∈ users k) (hidle : engaged task = none)
    (hclear : fabric.Clear users engaged task)
    (hbegins : fabric.Begins reach task deeds rest new) :
    fabric.Advances users engaged task (log ++ logged task (.begin :: deeds)) rest new := by
  -- that a step begins is no call
  have hbegun : fabric.Ordered users engaged (log ++ [(task, .begin)]) := hordered.begin
  have hout := hsound.not_mem_ready hidle
  have hlog : log ++ logged task (.begin :: deeds) = log ++ [(task, .begin)] ++ logged task deeds := by
    simp [logged]
  rw [hlog]
  cases hbegins with
  | offers hoffers => exact hbegun.offers hsound hcard hreach hidle (hclear.maySend hout) hoffers
  | @waits k _ hk hreceive =>
      have huser := hreach k hk
      obtain ⟨woken, channel, hchannel, rfl⟩ := after_of_receive hout hreceive
      obtain ⟨htouch, -⟩ := hsound.touch_receive huser hidle hchannel
      constructor
      · refine hbegun.receive hsound (hcard k) huser hidle ?_ hchannel
        exact fun hfree other hmem =>
          hclear.receiver_eq_none huser hfree hmem (ne_of_mem_of_not_mem hmem hout)
      · exact fun other hne hother => hother.touch hsound (hcard k) htouch hne
  | @takes k value between _ deeds _ hk hreceive hoffers =>
      have huser := hreach k hk
      have hbetween := (hsound.receive k huser hidle).of_ok hreceive
      obtain ⟨woken, channel, hchannel, rfl⟩ := after_of_receive hout hreceive
      obtain ⟨htouch, -⟩ := hsound.touch_receive huser hidle hchannel
      -- first the value is received, then the send is made from what this leaves
      have hreceived : fabric.Advances users engaged task
          (log ++ [(task, .begin)] ++ [(task, .receive k (.received value))])
          (fabric.after k task woken channel) none := by
        constructor
        · refine hbegun.receive hsound (hcard k) huser hidle ?_ hchannel
          exact fun hfree other hmem =>
            hclear.receiver_eq_none huser hfree hmem (ne_of_mem_of_not_mem hmem hout)
        · exact fun other hne hother => hother.touch hsound (hcard k) htouch hne
      have hoffered := hreceived.ordered.offers hbetween hcard hreach (Function.update_self ..)
        (hclear.maySend_of_received hsound huser hidle hchannel) hoffers
      have hlog : log ++ [(task, .begin)] ++ logged task (.receive k (.received value) :: deeds) =
          log ++ [(task, .begin)] ++ [(task, .receive k (.received value))] ++ logged task deeds := by
        simp [logged]
      rw [hlog]
      exact hreceived.trans hoffered

/-- The first of the ready tasks can go on. -/
theorem Ordered.resumes {engagement : Option (Engagement n)}
    (hordered : fabric.Ordered users engaged log)
    (hsound : fabric.Sound users engaged) (hcard : ∀ k, (users k).card ≤ 2)
    (hreach : ∀ k, reach k → task ∈ users k) (hready : fabric.ready = task :: ready)
    (hengaged : engaged task = engagement)
    (hresumes : (fabric.withReady ready).Resumes reach task engagement deeds rest new) :
    fabric.Advances users engaged task (log ++ logged task deeds) rest new ∧
      fabric.Hands users engaged task rest := by
  have hmem : task ∈ fabric.ready := by simp [hready]
  cases hresumes with
  | @delivers k value =>
      obtain ⟨woken, channel, hchannel, hrest⟩ := after_of_finishSend (k := k) hready
      obtain ⟨htouch, hreceivers⟩ := hsound.touch_finishSend hmem hengaged hchannel
      rw [hrest]
      refine ⟨⟨?_, ?_⟩, htouch.hands hreceivers ?_⟩
      · exact hordered.finishSend hsound (hcard k) hready hengaged hchannel
      · exact fun other hne hclear => hclear.touch hsound (hcard k) htouch hne
      · -- the value goes to the receiver that has been woken
        intro other hother
        cases hchannel
        exact hsound.values_of_signal rfl other hother
  | @takes k value between _ deeds _ hfinish hoffers =>
      have hbetween := (hsound.finishReceive hready hengaged).of_ok hfinish
      obtain ⟨channel, hchannel, rfl⟩ := after_of_finishReceive hready hfinish
      have htouch := hsound.touch_of_engaged hengaged
      -- as when a step begins: first the value is taken, then another one may be sent
      have hreceived : fabric.Advances users engaged task (log ++ [(task, .finishReceive k value)])
          (fabric.after k task none channel) none :=
        ⟨hordered.finishReceive hsound (hcard k) hready hengaged hchannel,
          fun other hne hclear => hclear.touch hsound (hcard k) htouch hne⟩
      have hidle : Function.update engaged task none task = none := Function.update_self ..
      have hoffered := hreceived.ordered.offers hbetween hcard hreach hidle
        (hordered.maySend_of_resumed hsound.ready_nodup hready) hoffers
      have hlog : log ++ logged task (.finishReceive k value :: deeds) =
          log ++ [(task, .finishReceive k value)] ++ logged task deeds := by
        simp [logged]
      rw [hlog]
      refine ⟨hreceived.trans hoffered, ?_⟩
      have hfirst : fabric.Hands users engaged task (fabric.after k task none channel) :=
        htouch.hands (by simp) (by simp)
      exact hfirst.trans (List.append_nil _) hsound.ready_nodup
        (hbetween.hands_of_offers hreach hidle hoffers)

/-- Whoever takes back a send has not been woken. -/
theorem Sound.not_mem_ready_of_cancelSend (hsound : fabric.Sound users engaged)
    (hcancel : fabric.cancelSend k task = some rest) : task ∉ fabric.ready := by
  obtain ⟨channel, hchannel, -⟩ := Option.map_eq_some_iff.mp hcancel
  have hmem := (Semaphore.waiters_cancel (Channel.cancelSend_cases hchannel).1).1
  exact (hsound.mem_emptySlots_iff.mp hmem).1

/-- Whoever takes back a receive has not been woken. -/
theorem Sound.not_mem_ready_of_cancelReceive (hsound : fabric.Sound users engaged)
    (hcancel : fabric.cancelReceive k task = some rest) : task ∉ fabric.ready := by
  obtain ⟨channel, hchannel, -⟩ := Option.map_eq_some_iff.mp hcancel
  have hmem := (Semaphore.waiters_cancel (Channel.cancelReceive_cases hchannel).1).1
  exact (hsound.mem_filledSlots_iff.mp hmem).1

/-- A task can take back what it is engaged in. -/
theorem Ordered.withdraws {engagement : Option (Engagement n)}
    (hordered : fabric.Ordered users engaged log)
    (hsound : fabric.Sound users engaged) (hcard : ∀ k, (users k).card ≤ 2)
    (hwithdraws : fabric.Withdraws task engagement deeds rest) :
    rest.Ordered users (Function.update engaged task none) (log ++ logged task deeds) ∧
      ∀ other, fabric.Clear users engaged other →
        rest.Clear users (Function.update engaged task none) other := by
  cases hwithdraws with
  | @send k value _ hcancel =>
      -- a task that can withdraw has not been woken
      have hout := hsound.not_mem_ready_of_cancelSend hcancel
      obtain ⟨channel, hchannel, rfl⟩ := after_of_cancelSend hout hcancel
      refine ⟨hordered.cancelSend hsound (hcard k) hchannel, fun other hclear => ?_⟩
      refine hclear.withdrawn hout ?_
      rw [(Channel.cancelSend_cases hchannel).2]
      exact id
  | @receive k _ hcancel =>
      have hout := hsound.not_mem_ready_of_cancelReceive hcancel
      obtain ⟨channel, hchannel, rfl⟩ := after_of_cancelReceive hout hcancel
      refine ⟨hordered.cancelReceive hsound (hcard k) hchannel, fun other hclear => ?_⟩
      refine hclear.withdrawn hout fun _ => ?_
      exact (hsound.exchange k).lines.receivers.permits_cancel_nonpos
        (Channel.cancelReceive_cases hchannel).1

end Operations

end NodeGrid.Fabric

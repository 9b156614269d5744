import NodeGrid.Proofs.Fabric.Calls

/-!
# Fabrics that keep calls in order

Tasks that are engaged with a channel stand in line twice over: first those that
have been woken, in the line of ready tasks, and behind them those that wait in the
channel.  A fabric is *ordered* after a log (`Ordered`) if at every channel the calls
of the log that have not ended are those of the tasks in line, in the same order.

A call that ends at once overtakes all tasks in line.  A sender does so when there is
a free slot although another sender has been woken and has not gone on yet, and a
receiver does likewise with values.  This cannot happen while no channel has more
than two users, for a user that finds the other one woken is itself what woke it, or
has been resumed before it (`MaySend`, `Clear`).
-/

namespace NodeGrid

variable {τ : Type} {n : ℕ}

/-! ## The two lines of a channel -/

namespace Channel

variable {channel rest : Channel τ} {task : τ} {value : Int64}

theorem send_cases {status : SendStatus} {woken : Option τ}
    (hsend : channel.send value task = (status, woken, rest)) :
    (status = .delivered ∧ channel.emptySlots.wait task = (.granted, rest.emptySlots) ∧
        channel.filledSlots.signal = (woken, rest.filledSlots)) ∨
      (status = .blocked ∧ woken = none ∧
        channel.emptySlots.wait task = (.suspended, rest.emptySlots) ∧
          rest.filledSlots = channel.filledSlots) := by
  unfold send at hsend
  split at hsend
  · rename_i emptySlots hwait
    cases hsend
    exact Or.inl ⟨rfl, hwait, rfl⟩
  · rename_i emptySlots hwait
    cases hsend
    exact Or.inr ⟨rfl, rfl, hwait, rfl⟩

theorem take_cases (htake : channel.take = .ok (value, rest)) :
    rest.emptySlots = channel.emptySlots ∧ rest.filledSlots = channel.filledSlots := by
  unfold take at htake
  split at htake <;> cases htake
  exact ⟨rfl, rfl⟩

theorem receive_cases {status : ReceiveStatus} {woken : Option τ}
    (hreceive : channel.receive task = .ok (status, woken, rest)) :
    channel.emptySlots.signal = (woken, rest.emptySlots) ∧
      ((∃ value, status = .received value ∧
          channel.filledSlots.wait task = (.granted, rest.filledSlots)) ∨
        (status = .blocked ∧
          channel.filledSlots.wait task = (.suspended, rest.filledSlots))) := by
  simp only [receive] at hreceive
  split at hreceive
  · rename_i filledSlots hwait
    obtain ⟨⟨taken, after⟩, htake, hpair⟩ := bind_eq_ok.mp hreceive
    cases hpair
    obtain ⟨hempty, hfilled⟩ := take_cases htake
    rw [hempty, hfilled]
    exact ⟨rfl, Or.inl ⟨taken, rfl, hwait⟩⟩
  · rename_i filledSlots hwait
    cases hreceive
    exact ⟨rfl, Or.inr ⟨rfl, hwait⟩⟩

theorem cancelSend_cases [DecidableEq τ] (hcancel : channel.cancelSend task = some rest) :
    channel.emptySlots.cancel task = some rest.emptySlots ∧
      rest.filledSlots = channel.filledSlots := by
  obtain ⟨emptySlots, hslots, rfl⟩ := Option.map_eq_some_iff.mp hcancel
  exact ⟨hslots, rfl⟩

theorem cancelReceive_cases [DecidableEq τ] (hcancel : channel.cancelReceive task = some rest) :
    channel.filledSlots.cancel task = some rest.filledSlots ∧
      rest.emptySlots.waiters = channel.emptySlots.waiters := by
  unfold cancelReceive at hcancel
  split at hcancel
  · cases hcancel
  · obtain ⟨filledSlots, hslots, rfl⟩ := Option.map_eq_some_iff.mp hcancel
    exact ⟨hslots, rfl⟩

end Channel

/-! ## The calls of engaged tasks -/

/-- The channel that the deed is on. -/
def Deed.channel? : Deed n → Option (Fin n)
  | .begin => none
  | .send k _ _ | .finishSend k _ | .cancelSend k | .receive k _ | .finishReceive k _
  | .cancelReceive k => some k

/-- A deed on another channel is not noticed. -/
theorem Deed.unnoticed {deed : Deed n} {k : Fin n} (hother : deed.channel? ≠ some k) :
    deed.sendChange? k = none ∧ deed.receiveChange? k = none ∧
      deed.comm?.bind (Comm.sent? k) = none ∧ deed.comm?.bind (Comm.received? k) = none := by
  cases deed with
  | send j value status =>
      have hj : j ≠ k := by simpa [channel?] using hother
      cases status <;> simp [sendChange?, receiveChange?, comm?, Comm.sent?, Comm.received?, hj]
  | receive j status =>
      have hj : j ≠ k := by simpa [channel?] using hother
      cases status <;> simp [sendChange?, receiveChange?, comm?, Comm.sent?, Comm.received?, hj]
  | begin => exact ⟨rfl, rfl, rfl, rfl⟩
  | _ j =>
      have hj : j ≠ k := by simpa [channel?] using hother
      simp [sendChange?, receiveChange?, comm?, Comm.sent?, Comm.received?, hj]

namespace Engagement

/-- The send on channel `k` that the engagement of a task stands for. -/
def sendCall? (k : Fin n) (task : τ) : Option (Engagement n) → Option (Call τ)
  | some (.sending j value) => if j = k then some ⟨some task, some value, none⟩ else none
  | some (.receiving _) | none => none

/-- The receive on channel `k` that the engagement of a task stands for. -/
def receiveCall? (k : Fin n) (task : τ) : Option (Engagement n) → Option (Call τ)
  | some (.receiving j) => if j = k then some ⟨some task, none, none⟩ else none
  | some (.sending _ _) | none => none

end Engagement

/-- The sends on channel `k` that tasks are engaged in. -/
def senderCall (engaged : τ → Option (Engagement n)) (k : Fin n) (task : τ) : Option (Call τ) :=
  Engagement.sendCall? k task (engaged task)

/-- The receives on channel `k` that tasks are engaged in. -/
def receiverCall (engaged : τ → Option (Engagement n)) (k : Fin n) (task : τ) : Option (Call τ) :=
  Engagement.receiveCall? k task (engaged task)

section Engaged

variable {engaged : τ → Option (Engagement n)} {new : Option (Engagement n)} {k : Fin n} {task : τ}
  {value : Int64}

@[simp] theorem sendCall?_none : Engagement.sendCall? k task none = none := rfl

@[simp] theorem receiveCall?_none : Engagement.receiveCall? k task none = none := rfl

@[simp] theorem sendCall?_sending :
    Engagement.sendCall? k task (some (.sending k value)) = some ⟨some task, some value, none⟩ :=
  if_pos rfl

@[simp] theorem sendCall?_receiving {j : Fin n} :
    Engagement.sendCall? k task (some (.receiving j)) = none := rfl

@[simp] theorem receiveCall?_receiving :
    Engagement.receiveCall? k task (some (.receiving k)) = some ⟨some task, none, none⟩ :=
  if_pos rfl

@[simp] theorem receiveCall?_sending {j : Fin n} :
    Engagement.receiveCall? k task (some (.sending j value)) = none := rfl

/-- A task has no call on a channel that it is not engaged with. -/
theorem calls_of_channel_ne (task : τ) {j : Fin n} (hj : j ≠ k)
    (hchannel : ∀ operation, new = some operation → operation.channel = k) :
    Engagement.sendCall? j task new = none ∧ Engagement.receiveCall? j task new = none := by
  rcases new with - | ⟨i, value⟩ | i
  · exact ⟨rfl, rfl⟩
  · have hi : i = k := hchannel _ rfl
    simp [Engagement.sendCall?, Engagement.receiveCall?, hi, hj.symm]
  · have hi : i = k := hchannel _ rfl
    simp [Engagement.sendCall?, Engagement.receiveCall?, hi, hj.symm]

theorem named_senderCall : Named (senderCall engaged k) := by
  intro task call hcall
  cases hengaged : engaged task with
  | none => simp [senderCall, hengaged] at hcall
  | some operation =>
      cases operation with
      | receiving j => simp [senderCall, hengaged] at hcall
      | sending j value =>
          rw [senderCall, hengaged] at hcall
          obtain ⟨-, hsome⟩ := Option.ite_none_right_eq_some.mp hcall
          cases hsome
          rfl

theorem named_receiverCall : Named (receiverCall engaged k) := by
  intro task call hcall
  cases hengaged : engaged task with
  | none => simp [receiverCall, hengaged] at hcall
  | some operation =>
      cases operation with
      | sending j value => simp [receiverCall, hengaged] at hcall
      | receiving j =>
          rw [receiverCall, hengaged] at hcall
          obtain ⟨-, hsome⟩ := Option.ite_none_right_eq_some.mp hcall
          cases hsome
          rfl

/-- The call of an engaged task has passed no value. -/
theorem passed_of_senderCall {call : Call τ} (hcall : senderCall engaged k task = some call) :
    call.passed = none := by
  unfold senderCall Engagement.sendCall? at hcall
  split at hcall
  · obtain ⟨-, hsome⟩ := Option.ite_none_right_eq_some.mp hcall
    cases hsome
    rfl
  · cases hcall
  · cases hcall

theorem passed_of_receiverCall {call : Call τ} (hcall : receiverCall engaged k task = some call) :
    call.passed = none := by
  unfold receiverCall Engagement.receiveCall? at hcall
  split at hcall
  · obtain ⟨-, hsome⟩ := Option.ite_none_right_eq_some.mp hcall
    cases hsome
    rfl
  · cases hcall
  · cases hcall

variable [DecidableEq τ]

theorem senderCall_update :
    senderCall (Function.update engaged task new) k =
      Function.update (senderCall engaged k) task (Engagement.sendCall? k task new) := by
  funext other
  by_cases hother : other = task
  · subst hother
    simp [senderCall]
  · simp [senderCall, hother]

theorem receiverCall_update :
    receiverCall (Function.update engaged task new) k =
      Function.update (receiverCall engaged k) task (Engagement.receiveCall? k task new) := by
  funext other
  by_cases hother : other = task
  · subst hother
    simp [receiverCall]
  · simp [receiverCall, hother]

theorem senderCall_update_of_none (hold : senderCall engaged k task = none)
    (hnew : Engagement.sendCall? k task new = none) :
    senderCall (Function.update engaged task new) k = senderCall engaged k := by
  rw [senderCall_update, hnew, ← hold, Function.update_eq_self]

theorem receiverCall_update_of_none (hold : receiverCall engaged k task = none)
    (hnew : Engagement.receiveCall? k task new = none) :
    receiverCall (Function.update engaged task new) k = receiverCall engaged k := by
  rw [receiverCall_update, hnew, ← hold, Function.update_eq_self]

variable {log : Log τ n} {deed : Deed n} {change : Change}

theorem sendCalls_concat (hchange : deed.sendChange? k = some change) :
    sendCalls k (log ++ [(task, deed)]) = change.record task (sendCalls k log) := by
  rw [sendCalls, callsBy_concat, hchange]
  rfl

theorem sendCalls_concat_of_none (hchange : deed.sendChange? k = none) :
    sendCalls k (log ++ [(task, deed)]) = sendCalls k log := by
  rw [sendCalls, callsBy_concat, hchange]
  rfl

theorem receiveCalls_concat (hchange : deed.receiveChange? k = some change) :
    receiveCalls k (log ++ [(task, deed)]) = change.record task (receiveCalls k log) := by
  rw [receiveCalls, callsBy_concat, hchange]
  rfl

theorem receiveCalls_concat_of_none (hchange : deed.receiveChange? k = none) :
    receiveCalls k (log ++ [(task, deed)]) = receiveCalls k log := by
  rw [receiveCalls, callsBy_concat, hchange]
  rfl

end Engaged

/-! ## Ordered fabrics -/

namespace Fabric

/-- The calls that have not ended are those of the tasks in line. -/
structure Ordered (fabric : Fabric τ n) [DecidableEq τ] (users : Fin n → Finset τ)
    (engaged : τ → Option (Engagement n)) (log : Log τ n) : Prop where
  sends : ∀ k, InLine (sendCalls k log) ((sentOn k log).map .sent)
    (fabric.ready ++ (fabric.channel k).emptySlots.waiters) (senderCall engaged k)
  receives : ∀ k, InLine (receiveCalls k log) ((receivedOn k log).map .received)
    (fabric.ready ++ (fabric.channel k).filledSlots.waiters) (receiverCall engaged k)
  /-- Whoever has been woken earlier does not use the channels of those woken later. -/
  apart : fabric.ready.Pairwise fun first second =>
    ∀ operation, engaged second = some operation → first ∉ users operation.channel

/-- What is known of an operation of `task` on channel `k` that wakes `woken`. -/
structure Touch (fabric : Fabric τ n) (users : Fin n → Finset τ)
    (engaged : τ → Option (Engagement n)) (k : Fin n) (task : τ) (new : Option (Engagement n))
    (woken : Option τ) : Prop where
  user : task ∈ users k
  old_channel : ∀ operation, engaged task = some operation → operation.channel = k
  new_channel : ∀ operation, new = some operation → operation.channel = k
  woken : ∀ other, woken = some other → other ≠ task ∧ other ∉ fabric.ready ∧ other ∈ users k ∧
    ∃ operation, engaged other = some operation ∧ operation.channel = k

/-- The fabric after an operation of `task` on channel `k`. -/
abbrev after (fabric : Fabric τ n) [DecidableEq τ] (k : Fin n) (task : τ) (woken : Option τ)
    (channel : Channel τ) : Fabric τ n :=
  (fabric.withReady (fabric.ready.erase task)).update k woken channel

section Operations

variable {fabric rest : Fabric τ n} {users : Fin n → Finset τ}
  {engaged : τ → Option (Engagement n)} {log : Log τ n} {k : Fin n} {task : τ} {woken : Option τ}
  {new : Option (Engagement n)} {channel : Channel τ} {deed : Deed n} {value : Int64}

/-- Three tasks cannot all use a channel. -/
theorem not_mem_of_card {first second third : τ} (hcard : (users k).card ≤ 2)
    (hsecond : second ∈ users k) (hthird : third ∈ users k) (hne : second ≠ third)
    (hfirst : first ≠ second) (hother : first ≠ third) : first ∉ users k := by
  intro hmem
  have hlt : 2 < (users k).card :=
    Finset.two_lt_card.mpr ⟨first, hmem, second, hsecond, third, hthird, hfirst, hother, hne⟩
  omega

theorem touch_nobody (huser : task ∈ users k)
    (hold : ∀ operation, engaged task = some operation → operation.channel = k)
    (hnew : ∀ operation, new = some operation → operation.channel = k) :
    fabric.Touch users engaged k task new none :=
  ⟨huser, hold, hnew, by simp⟩

/-- Who is woken has no call on any other channel. -/
theorem Touch.calls_of_woken {j : Fin n} {other : τ} (hj : j ≠ k)
    (htouch : fabric.Touch users engaged k task new woken) (hother : woken = some other) :
    senderCall engaged j other = none ∧ receiverCall engaged j other = none := by
  obtain ⟨-, -, -, operation, hengaged, hchannel⟩ := htouch.woken other hother
  refine calls_of_channel_ne other hj fun another hanother => ?_
  rw [hengaged] at hanother
  cases hanother
  exact hchannel

variable [DecidableEq τ]

/-- Sends keep their order where the task has none of them. -/
theorem Ordered.sends_pass (hordered : fabric.Ordered users engaged log) (woken : Option τ)
    {later : List τ} (hchange : deed.sendChange? k = none)
    (hsent : deed.comm?.bind (Comm.sent? k) = none) (hold : senderCall engaged k task = none)
    (hnew : Engagement.sendCall? k task new = none)
    (hwoken : (fabric.channel k).emptySlots.waiters = woken.toList ++ later ∨
      (fabric.channel k).emptySlots.waiters = later ∧
        ∀ other, woken = some other → senderCall engaged k other = none) :
    InLine (sendCalls k (log ++ [(task, deed)])) ((sentOn k (log ++ [(task, deed)])).map .sent)
      (fabric.ready.erase task ++ woken.toList ++ later)
      (senderCall (Function.update engaged task new) k) := by
  rw [sendCalls_concat_of_none hchange, sentOn_concat, hsent, Option.toList_none, List.append_nil,
    senderCall_update_of_none hold hnew]
  exact (hordered.sends k).pass woken hold hwoken

/-- Receives keep their order where the task has none of them. -/
theorem Ordered.receives_pass (hordered : fabric.Ordered users engaged log) (woken : Option τ)
    {later : List τ} (hchange : deed.receiveChange? k = none)
    (hreceived : deed.comm?.bind (Comm.received? k) = none)
    (hold : receiverCall engaged k task = none)
    (hnew : Engagement.receiveCall? k task new = none)
    (hwoken : (fabric.channel k).filledSlots.waiters = woken.toList ++ later ∨
      (fabric.channel k).filledSlots.waiters = later ∧
        ∀ other, woken = some other → receiverCall engaged k other = none) :
    InLine (receiveCalls k (log ++ [(task, deed)]))
      ((receivedOn k (log ++ [(task, deed)])).map .received)
      (fabric.ready.erase task ++ woken.toList ++ later)
      (receiverCall (Function.update engaged task new) k) := by
  rw [receiveCalls_concat_of_none hchange, receivedOn_concat, hreceived, Option.toList_none,
    List.append_nil, receiverCall_update_of_none hold hnew]
  exact (hordered.receives k).pass woken hold hwoken

/-- For the order of calls, an operation has to be looked at on its own channel
only. -/
theorem Ordered.touch (hordered : fabric.Ordered users engaged log) (hnodup : fabric.ready.Nodup)
    (hcard : (users k).card ≤ 2) (htouch : fabric.Touch users engaged k task new woken)
    (hdeed : deed.channel? = some k)
    (hsends : InLine (sendCalls k (log ++ [(task, deed)]))
      ((sentOn k (log ++ [(task, deed)])).map .sent)
      (fabric.ready.erase task ++ woken.toList ++ channel.emptySlots.waiters)
      (senderCall (Function.update engaged task new) k))
    (hreceives : InLine (receiveCalls k (log ++ [(task, deed)]))
      ((receivedOn k (log ++ [(task, deed)])).map .received)
      (fabric.ready.erase task ++ woken.toList ++ channel.filledSlots.waiters)
      (receiverCall (Function.update engaged task new) k)) :
    (fabric.after k task woken channel).Ordered users (Function.update engaged task new)
      (log ++ [(task, deed)]) where
  sends := by
    intro j
    by_cases hj : j = k
    · subst hj
      rw [channel_update_self]
      -- on the channel itself, the order is what the operation makes of it
      exact hsends
    · -- on any other channel the deed is not noticed, and the tasks in question have no calls
      obtain ⟨hchange, -, hsent, -⟩ := deed.unnoticed (k := j) (by simpa [hdeed] using Ne.symm hj)
      rw [channel_update_of_ne _ _ _ hj]
      refine hordered.sends_pass woken hchange hsent (calls_of_channel_ne _ hj htouch.old_channel).1
        (calls_of_channel_ne _ hj htouch.new_channel).1 (Or.inr ⟨rfl, ?_⟩)
      exact fun other hother => (htouch.calls_of_woken hj hother).1
  receives := by
    intro j
    by_cases hj : j = k
    · subst hj
      rw [channel_update_self]
      exact hreceives
    · obtain ⟨-, hchange, -, hreceived⟩ := deed.unnoticed (k := j) (by simpa [hdeed] using Ne.symm hj)
      rw [channel_update_of_ne _ _ _ hj]
      refine hordered.receives_pass woken hchange hreceived
        (calls_of_channel_ne _ hj htouch.old_channel).2
        (calls_of_channel_ne _ hj htouch.new_channel).2 (Or.inr ⟨rfl, ?_⟩)
      exact fun other hother => (htouch.calls_of_woken hj hother).2
  apart := by
    rw [ready_update, ready_withReady, List.pairwise_append]
    -- those that stay in the line were there before
    have hstays : ∀ other ∈ fabric.ready.erase task, other ∈ fabric.ready ∧ other ≠ task :=
      fun other hmem => ⟨List.mem_of_mem_erase hmem,
        fun heq => hnodup.not_mem_erase (heq ▸ hmem)⟩
    refine ⟨?_, ?_, ?_⟩
    · refine (hordered.apart.sublist List.erase_sublist).imp_of_mem ?_
      intro first second _ hsecond hapart
      rwa [Function.update_of_ne (hstays second hsecond).2]
    · cases woken <;> simp
    · intro first hfirst second hsecond
      -- whoever is woken uses the channel, as the task does; so nobody else in the line can
      obtain ⟨hready, hfirst⟩ := hstays first hfirst
      obtain ⟨hne, hout, huser, operation, hengaged, hchannel⟩ :=
        htouch.woken second (Option.mem_toList.mp hsecond)
      rw [Function.update_of_ne hne, hengaged]
      rintro _ ⟨⟩
      rw [hchannel]
      exact not_mem_of_card hcard htouch.user huser hne.symm hfirst
        (ne_of_mem_of_not_mem hready hout)

/-! ## What an operation touches -/

variable [Fintype τ] {ready : List τ}

/-- Whoever is engaged with a channel is one of its users. -/
theorem Sound.user_of_engaged (hsound : fabric.Sound users engaged) {operation : Engagement n}
    (hengaged : engaged task = some operation) : task ∈ users operation.channel := by
  by_contra hout
  have hidle := (hsound.exchange operation.channel).idle_of_notMem task hout
  simp only [Fabric.exchange, hengaged, Engagement.phaseAt, if_true] at hidle
  cases operation <;> cases hready : decide (task ∈ fabric.ready) <;>
    simp [Engagement.phase, hready] at hidle

/-- An operation that hands out a value wakes a receiver. -/
theorem Sound.touch_receiver (hsound : fabric.Sound users engaged) (huser : task ∈ users k)
    (hold : ∀ operation, engaged task = some operation → operation.channel = k)
    (hnew : ∀ operation, new = some operation → operation.channel = k)
    (htask : engaged task = none ∨ task ∈ fabric.ready)
    (hwoken : (fabric.channel k).filledSlots.signal.1 = woken) :
    fabric.Touch users engaged k task new woken ∧
      ∀ other, woken = some other → engaged other = some (.receiving k) := by
  -- the first in the line of the channel is parked there with a receive
  have hreceiving : ∀ other, woken = some other → other ∉ fabric.ready ∧
      engaged other = some (.receiving k) := by
    intro other hother
    have hphase := (hsound.exchange k).lines.woken_receiver (hwoken.trans hother)
    obtain ⟨hout, hengaged⟩ := Engagement.phaseAt_eq_parkedReceive_iff.mp hphase
    exact ⟨of_decide_eq_false hout, hengaged⟩
  refine ⟨⟨huser, hold, hnew, ?_⟩, fun other hother => (hreceiving other hother).2⟩
  intro other hother
  obtain ⟨hout, hengaged⟩ := hreceiving other hother
  refine ⟨?_, hout, hsound.user_of_engaged hengaged, _, hengaged, rfl⟩
  rintro rfl
  -- the task itself is not parked, since it is idle or ready
  rcases htask with hidle | hmem
  · rw [hidle] at hengaged
    cases hengaged
  · exact hout hmem

/-- An operation that hands out a slot wakes a sender. -/
theorem Sound.touch_sender (hsound : fabric.Sound users engaged) (huser : task ∈ users k)
    (hidle : engaged task = none)
    (hnew : ∀ operation, new = some operation → operation.channel = k)
    (hwoken : (fabric.channel k).emptySlots.signal.1 = woken) :
    fabric.Touch users engaged k task new woken ∧
      ∀ other, woken = some other → ∃ value, engaged other = some (.sending k value) := by
  -- the first in the line of the channel is parked there with a send
  have hsending : ∀ other, woken = some other → other ∉ fabric.ready ∧
      ∃ value, engaged other = some (.sending k value) := by
    intro other hother
    obtain ⟨value, hphase⟩ := (hsound.exchange k).lines.woken_sender (hwoken.trans hother)
    obtain ⟨hout, hengaged⟩ := Engagement.phaseAt_eq_parkedSend_iff.mp hphase
    exact ⟨of_decide_eq_false hout, value, hengaged⟩
  refine ⟨⟨huser, by simp [hidle], hnew, ?_⟩, fun other hother => (hsending other hother).2⟩
  intro other hother
  obtain ⟨hout, value, hengaged⟩ := hsending other hother
  refine ⟨?_, hout, hsound.user_of_engaged hengaged, _, hengaged, rfl⟩
  rintro rfl
  rw [hidle] at hengaged
  cases hengaged

/-! ## Operations keep the order -/

theorem Sound.touch_send {status : SendStatus} (hsound : fabric.Sound users engaged)
    (huser : task ∈ users k) (hidle : engaged task = none)
    (hsend : (fabric.channel k).send value task = (status, woken, channel)) :
    fabric.Touch users engaged k task (Engagement.ofSend k value status) woken ∧
      ∀ other, woken = some other → engaged other = some (.receiving k) := by
  rcases Channel.send_cases hsend with ⟨rfl, -, hsignal⟩ | ⟨rfl, rfl, -, -⟩
  · exact hsound.touch_receiver huser (by simp [hidle]) (fun _ => Engagement.channel_ofSend)
      (Or.inl hidle) (by rw [hsignal])
  · exact ⟨touch_nobody huser (by simp [hidle]) fun _ => Engagement.channel_ofSend, by simp⟩

theorem Sound.touch_receive {status : ReceiveStatus} (hsound : fabric.Sound users engaged)
    (huser : task ∈ users k) (hidle : engaged task = none)
    (hreceive : (fabric.channel k).receive task = .ok (status, woken, channel)) :
    fabric.Touch users engaged k task (Engagement.ofReceive k status) woken ∧
      ∀ other, woken = some other → ∃ value, engaged other = some (.sending k value) :=
  hsound.touch_sender huser hidle (fun _ => Engagement.channel_ofReceive)
    (by rw [(Channel.receive_cases hreceive).1])

theorem Sound.touch_finishSend (hsound : fabric.Sound users engaged) (hmem : task ∈ fabric.ready)
    (hengaged : engaged task = some (.sending k value))
    (hfinish : (fabric.channel k).finishSend value = (woken, channel)) :
    fabric.Touch users engaged k task none woken ∧
      ∀ other, woken = some other → engaged other = some (.receiving k) :=
  hsound.touch_receiver (hsound.user_of_engaged hengaged) (by simp [hengaged, Engagement.channel])
    (by simp) (Or.inr hmem) (congrArg Prod.fst hfinish)

/-- To end an operation otherwise wakes nobody. -/
theorem Sound.touch_of_engaged {operation : Engagement n} (hsound : fabric.Sound users engaged)
    (hengaged : engaged task = some operation) :
    fabric.Touch users engaged operation.channel task none none :=
  touch_nobody (hsound.user_of_engaged hengaged) (by simp [hengaged]) (by simp)

/-- A sender that is granted a slot overtakes no sender that waits for one. -/
theorem Sound.of_granted_slot {emptySlots : Semaphore τ} (hsound : fabric.Sound users engaged)
    (hwait : (fabric.channel k).emptySlots.wait task = (.granted, emptySlots)) :
    0 < (fabric.channel k).emptySlots.permits.toInt ∧
      (fabric.channel k).emptySlots.waiters = [] ∧
        emptySlots.waiters = (fabric.channel k).emptySlots.waiters :=
  (hsound.exchange k).lines.senders.of_granted (hsound.exchange k).slots_gt hwait

/-- A receiver that is granted a value overtakes no receiver that waits for one. -/
theorem Sound.of_granted_value {filledSlots : Semaphore τ} (hsound : fabric.Sound users engaged)
    (hwait : (fabric.channel k).filledSlots.wait task = (.granted, filledSlots)) :
    0 < (fabric.channel k).filledSlots.permits.toInt ∧
      (fabric.channel k).filledSlots.waiters = [] ∧
        filledSlots.waiters = (fabric.channel k).filledSlots.waiters :=
  (hsound.exchange k).lines.receivers.of_granted (hsound.exchange k).values_gt hwait

/-- A task with nothing outstanding stands in no line. -/
theorem Sound.not_mem_lines (hsound : fabric.Sound users engaged) (hidle : engaged task = none) :
    task ∉ fabric.ready ∧ task ∉ (fabric.channel k).emptySlots.waiters ∧
      task ∉ (fabric.channel k).filledSlots.waiters := by
  refine ⟨hsound.not_mem_ready hidle, ?_, ?_⟩
  · rw [hsound.mem_emptySlots_iff]
    simp [hidle]
  · rw [hsound.mem_filledSlots_iff]
    simp [hidle]

/-- A send keeps the order if it finds no other sender in line when it finds a free
slot. -/
theorem Ordered.send {status : SendStatus} (hordered : fabric.Ordered users engaged log)
    (hsound : fabric.Sound users engaged) (hcard : (users k).card ≤ 2) (huser : task ∈ users k)
    (hidle : engaged task = none)
    (hfree : 0 < (fabric.channel k).emptySlots.permits.toInt →
      ∀ other ∈ fabric.ready, senderCall engaged k other = none)
    (hsend : (fabric.channel k).send value task = (status, woken, channel)) :
    (fabric.after k task woken channel).Ordered users
      (Function.update engaged task (Engagement.ofSend k value status))
      (log ++ [(task, .send k value status)]) := by
  obtain ⟨hready, hempty, -⟩ := hsound.not_mem_lines (k := k) hidle
  have hsender : senderCall engaged k task = none := by simp [senderCall, hidle]
  have hreceiver : receiverCall engaged k task = none := by simp [receiverCall, hidle]
  obtain ⟨htouch, hwoken⟩ := hsound.touch_send huser hidle hsend
  rcases Channel.send_cases hsend with ⟨rfl, hwait, hsignal⟩ | ⟨rfl, rfl, hwait, hfilled⟩
  -- the value goes straight into its slot, and the longest waiting receiver is woken
  · obtain ⟨hpos, hnil, hwaiters⟩ := hsound.of_granted_slot hwait
    refine hordered.touch hsound.ready_nodup hcard htouch rfl ?_ ?_
    · have hnobody : (fabric.ready ++ (fabric.channel k).emptySlots.waiters).filterMap
          (senderCall engaged k) = [] := by
        rw [hnil, List.append_nil, List.filterMap_eq_nil_iff]
        exact hfree hpos
      have hnone : ∀ other, woken = some other → senderCall engaged k other = none :=
        fun other hother => by simp [senderCall, hwoken other hother]
      have hserved := (hordered.sends k).serves hnobody hsender hnone (.sent value)
      rw [sendCalls_concat Deed.sendChange?_delivered, sentOn_concat,
        senderCall_update_of_none hsender rfl, hwaiters]
      simpa [Deed.comm?, Comm.sent?, Change.record, Call.sent] using hserved
    · have hwaiters := (fabric.channel k).filledSlots.waiters_signal
      rw [hsignal] at hwaiters
      exact hordered.receives_pass woken rfl rfl hreceiver rfl (Or.inl hwaiters)
  -- the sender lines up for a slot
  · refine hordered.touch hsound.ready_nodup hcard htouch rfl ?_ ?_
    · have hopened := (hordered.sends k).opens none hready hempty (by simp) (some value)
      rw [sendCalls_concat Deed.sendChange?_blocked, sentOn_concat, senderCall_update,
        Engagement.ofSend, sendCall?_sending, Semaphore.waiters_of_suspended hwait]
      simpa [Deed.comm?, Change.record] using hopened
    · rw [hfilled]
      exact hordered.receives_pass none rfl rfl hreceiver rfl (Or.inr ⟨rfl, by simp⟩)

/-- A receive keeps the order if it finds no other receiver in line when it finds a
free value. -/
theorem Ordered.receive {status : ReceiveStatus} (hordered : fabric.Ordered users engaged log)
    (hsound : fabric.Sound users engaged) (hcard : (users k).card ≤ 2) (huser : task ∈ users k)
    (hidle : engaged task = none)
    (hfree : 0 < (fabric.channel k).filledSlots.permits.toInt →
      ∀ other ∈ fabric.ready, receiverCall engaged k other = none)
    (hreceive : (fabric.channel k).receive task = .ok (status, woken, channel)) :
    (fabric.after k task woken channel).Ordered users
      (Function.update engaged task (Engagement.ofReceive k status))
      (log ++ [(task, .receive k status)]) := by
  obtain ⟨hready, -, hfilled⟩ := hsound.not_mem_lines (k := k) hidle
  have hsender : senderCall engaged k task = none := by simp [senderCall, hidle]
  have hreceiver : receiverCall engaged k task = none := by simp [receiverCall, hidle]
  obtain ⟨htouch, hwoken⟩ := hsound.touch_receive huser hidle hreceive
  obtain ⟨hsignal, hstatus⟩ := Channel.receive_cases hreceive
  -- in any case the receiver announces itself, and the longest waiting sender is woken
  have hwaiters := (fabric.channel k).emptySlots.waiters_signal
  rw [hsignal] at hwaiters
  rcases hstatus with ⟨value, rfl, hwait⟩ | ⟨rfl, hwait⟩
  · obtain ⟨hpos, hnil, hsame⟩ := hsound.of_granted_value hwait
    refine hordered.touch hsound.ready_nodup hcard htouch rfl ?_ ?_
    · exact hordered.sends_pass woken rfl rfl hsender rfl (Or.inl hwaiters)
    · have hnobody : (fabric.ready ++ (fabric.channel k).filledSlots.waiters).filterMap
          (receiverCall engaged k) = [] := by
        rw [hnil, List.append_nil, List.filterMap_eq_nil_iff]
        exact hfree hpos
      have hnone : ∀ other, woken = some other → receiverCall engaged k other = none := by
        intro other hother
        obtain ⟨offered, hengaged⟩ := hwoken other hother
        simp [receiverCall, hengaged]
      have hserved := (hordered.receives k).serves hnobody hreceiver hnone (.received value)
      rw [receiveCalls_concat Deed.receiveChange?_received, receivedOn_concat,
        receiverCall_update_of_none hreceiver rfl, hsame]
      simpa [Deed.comm?, Comm.received?, Change.record, Call.received] using hserved
  · refine hordered.touch hsound.ready_nodup hcard htouch rfl ?_ ?_
    · exact hordered.sends_pass woken rfl rfl hsender rfl (Or.inl hwaiters)
    · have hnone : ∀ other, woken = some other →
          other ≠ task ∧ receiverCall engaged k other = none := by
        intro other hother
        obtain ⟨offered, hengaged⟩ := hwoken other hother
        exact ⟨(htouch.woken other hother).1, by simp [receiverCall, hengaged]⟩
      have hopened := (hordered.receives k).opens woken hready hfilled hnone none
      rw [receiveCalls_concat Deed.receiveChange?_blocked, receivedOn_concat, receiverCall_update,
        Engagement.ofReceive, receiveCall?_receiving, Semaphore.waiters_of_suspended hwait]
      simpa [Deed.comm?, Change.record] using hopened

/-- A sender that has been woken before all others ends its send. -/
theorem Ordered.finishSend (hordered : fabric.Ordered users engaged log)
    (hsound : fabric.Sound users engaged) (hcard : (users k).card ≤ 2)
    (hready : fabric.ready = task :: ready) (hengaged : engaged task = some (.sending k value))
    (hfinish : (fabric.channel k).finishSend value = (woken, channel)) :
    (fabric.after k task woken channel).Ordered users (Function.update engaged task none)
      (log ++ [(task, .finishSend k value)]) := by
  have hnodup := hsound.ready_nodup
  -- the value that was parked is the one that the send was issued with
  have hsender : senderCall engaged k task = some ⟨some task, some value, none⟩ := by
    simp [senderCall, hengaged]
  have hreceiver : receiverCall engaged k task = none := by simp [receiverCall, hengaged]
  have hmem : task ∈ fabric.ready := by simp [hready]
  have hsignal : (fabric.channel k).filledSlots.signal = (woken, channel.filledSlots) := by
    cases hfinish
    rfl
  have hempty : channel.emptySlots = (fabric.channel k).emptySlots := by
    cases hfinish
    rfl
  obtain ⟨htouch, hwoken⟩ := hsound.touch_finishSend hmem hengaged hfinish
  refine hordered.touch hnodup hcard htouch rfl ?_ ?_
  · have hout : task ∉ (fabric.channel k).emptySlots.waiters := by
      rw [hsound.mem_emptySlots_iff]
      exact fun hwaits => hwaits.1 hmem
    have hnone : ∀ other, woken = some other → other ≠ task ∧ senderCall engaged k other = none :=
      fun other hother =>
        ⟨(htouch.woken other hother).1, by simp [senderCall, hwoken other hother]⟩
    have hline := hordered.sends k
    rw [hready] at hline hnodup ⊢
    have hended := hline.ends woken named_senderCall (by simp) (List.nodup_cons.mp hnodup).1 hout
      hsender hnone value
    rw [sendCalls_concat Deed.sendChange?_finishSend, sentOn_concat, senderCall_update, hempty]
    simpa [Deed.comm?, Comm.sent?, Call.sent, Call.close] using hended
  · have hwaiters := (fabric.channel k).filledSlots.waiters_signal
    rw [hsignal] at hwaiters
    exact hordered.receives_pass woken rfl rfl hreceiver rfl (Or.inl hwaiters)

/-- A receiver that has been woken before all others ends its receive. -/
theorem Ordered.finishReceive (hordered : fabric.Ordered users engaged log)
    (hsound : fabric.Sound users engaged) (hcard : (users k).card ≤ 2)
    (hready : fabric.ready = task :: ready) (hengaged : engaged task = some (.receiving k))
    (hfinish : (fabric.channel k).finishReceive = .ok (value, channel)) :
    (fabric.after k task none channel).Ordered users (Function.update engaged task none)
      (log ++ [(task, .finishReceive k value)]) := by
  have hnodup := hsound.ready_nodup
  have hsender : senderCall engaged k task = none := by simp [senderCall, hengaged]
  have hreceiver : receiverCall engaged k task = some ⟨some task, none, none⟩ := by
    simp [receiverCall, hengaged]
  have hmem : task ∈ fabric.ready := by simp [hready]
  obtain ⟨hempty, hfilled⟩ := Channel.take_cases hfinish
  have htouch := hsound.touch_of_engaged hengaged
  refine hordered.touch hnodup hcard htouch rfl ?_ ?_
  · rw [hempty]
    exact hordered.sends_pass none rfl rfl hsender rfl (Or.inr ⟨rfl, by simp⟩)
  · -- its call is the first of all, so it ends as the first
    have hout : task ∉ (fabric.channel k).filledSlots.waiters := by
      rw [hsound.mem_filledSlots_iff]
      exact fun hwaits => hwaits.1 hmem
    have hline := hordered.receives k
    rw [hready] at hline hnodup ⊢
    have hended := hline.ends none named_receiverCall (by simp) (List.nodup_cons.mp hnodup).1 hout
      hreceiver (by simp) value
    rw [receiveCalls_concat Deed.receiveChange?_finishReceive, receivedOn_concat, receiverCall_update,
      hfilled]
    simpa [Deed.comm?, Comm.received?, Call.received, Call.close] using hended

theorem Ordered.cancelSend (hordered : fabric.Ordered users engaged log)
    (hsound : fabric.Sound users engaged) (hcard : (users k).card ≤ 2)
    (hcancel : (fabric.channel k).cancelSend task = some channel) :
    (fabric.after k task none channel).Ordered users (Function.update engaged task none)
      (log ++ [(task, .cancelSend k)]) := by
  obtain ⟨hslots, hfilled⟩ := Channel.cancelSend_cases hcancel
  obtain ⟨hmem, hwaiters⟩ := Semaphore.waiters_cancel hslots
  obtain ⟨hout, value, hengaged⟩ := hsound.mem_emptySlots_iff.mp hmem
  have hreceiver : receiverCall engaged k task = none := by simp [receiverCall, hengaged]
  have htouch := hsound.touch_of_engaged hengaged
  refine hordered.touch hsound.ready_nodup hcard htouch rfl ?_ ?_
  · have hwithdrawn := (hordered.sends k).withdraws named_senderCall (by simp) hout
      (hsound.exchange k).lines.senders.nodup
    rw [sendCalls_concat Deed.sendChange?_cancelSend, sentOn_concat, senderCall_update, hwaiters]
    simpa [Deed.comm?] using hwithdrawn
  · rw [hfilled]
    exact hordered.receives_pass none rfl rfl hreceiver rfl (Or.inr ⟨rfl, by simp⟩)

theorem Ordered.cancelReceive (hordered : fabric.Ordered users engaged log)
    (hsound : fabric.Sound users engaged) (hcard : (users k).card ≤ 2)
    (hcancel : (fabric.channel k).cancelReceive task = some channel) :
    (fabric.after k task none channel).Ordered users (Function.update engaged task none)
      (log ++ [(task, .cancelReceive k)]) := by
  obtain ⟨hslots, hempty⟩ := Channel.cancelReceive_cases hcancel
  obtain ⟨hmem, hwaiters⟩ := Semaphore.waiters_cancel hslots
  obtain ⟨hout, hengaged⟩ := hsound.mem_filledSlots_iff.mp hmem
  have hsender : senderCall engaged k task = none := by simp [senderCall, hengaged]
  have htouch := hsound.touch_of_engaged hengaged
  refine hordered.touch hsound.ready_nodup hcard htouch rfl ?_ ?_
  · rw [hempty]
    exact hordered.sends_pass none rfl rfl hsender rfl (Or.inr ⟨rfl, by simp⟩)
  · have hwithdrawn := (hordered.receives k).withdraws named_receiverCall (by simp) hout
      (hsound.exchange k).lines.receivers.nodup
    rw [receiveCalls_concat Deed.receiveChange?_cancelReceive, receivedOn_concat,
      receiverCall_update, hwaiters]
    simpa [Deed.comm?] using hwithdrawn

end Operations

end Fabric

end NodeGrid

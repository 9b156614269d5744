import NodeGrid.Proofs.Channel.Ledger
import NodeGrid.Proofs.Fabric.Engagement

/-!
# What a task does with the fabric

A `Deed` is an operation on a channel together with the answer that it got, or the
beginning of a step.  The deeds of a task come in three groups: those of a step
that begins (`Begins`), those of a step that goes on after its task has been woken
(`Resumes`), and the one of a step that is given up (`Withdraws`).  Each group says
how the fabric changes and what the task is engaged in afterwards.

Of the deeds of a task, only the values that it puts into channels and takes out of
them matter to it; these are its communications (`Comm`).  For the channels, all
deeds matter: a channel after some deeds can be computed from the deeds and the
channel before them (`replay`).
-/

namespace NodeGrid

variable {τ : Type} {n : ℕ}

/-- Something that a task does. -/
inductive Deed (n : ℕ) where
  | begin
  | send (k : Fin n) (value : Int64) (status : SendStatus)
  | finishSend (k : Fin n) (value : Int64)
  | cancelSend (k : Fin n)
  | receive (k : Fin n) (status : ReceiveStatus)
  | finishReceive (k : Fin n) (value : Int64)
  | cancelReceive (k : Fin n)
deriving DecidableEq

/-- A send or a receive that has come to its end. -/
inductive Comm (n : ℕ) where
  | sent (k : Fin n) (value : Int64)
  | received (k : Fin n) (value : Int64)
deriving DecidableEq

namespace Deed

/-- The communication that the deed completes. -/
def comm? : Deed n → Option (Comm n)
  | .send k value .delivered | .finishSend k value => some (.sent k value)
  | .receive k (.received value) | .finishReceive k value => some (.received k value)
  | .begin | .send _ _ .blocked | .receive _ .blocked | .cancelSend _ | .cancelReceive _ => none

end Deed

/-- The communications in a list of deeds. -/
def comms (deeds : List (Deed n)) : List (Comm n) := deeds.filterMap Deed.comm?

@[simp] theorem comms_nil : comms ([] : List (Deed n)) = [] := rfl

@[simp] theorem comms_append (first second : List (Deed n)) :
    comms (first ++ second) = comms first ++ comms second := List.filterMap_append

theorem comms_cons (deed : Deed n) (rest : List (Deed n)) :
    comms (deed :: rest) = deed.comm?.toList ++ comms rest := by
  cases hcomm : deed.comm? <;> simp [comms, hcomm]

/-! ## Deeds and channels -/

/-- The channels after a deed of the task; `none` if its answer is another one. -/
def Deed.replay [DecidableEq τ] (task : τ) (channels : Vector (Channel τ) n) :
    Deed n → Option (Vector (Channel τ) n)
  | .begin => some channels
  | .send k value status =>
    let (answer, _, channel) := (channels.get k).send value task
    if answer = status then some (channels.set k channel k.isLt) else none
  | .finishSend k value => some (channels.set k ((channels.get k).finishSend value).2 k.isLt)
  | .cancelSend k =>
    ((channels.get k).cancelSend task).map fun channel => channels.set k channel k.isLt
  | .receive k status =>
    match (channels.get k).receive task with
    | .ok (answer, _, channel) =>
      if answer = status then some (channels.set k channel k.isLt) else none
    | .error _ => none
  | .finishReceive k value =>
    match (channels.get k).finishReceive with
    | .ok (taken, channel) => if taken = value then some (channels.set k channel k.isLt) else none
    | .error _ => none
  | .cancelReceive k =>
    ((channels.get k).cancelReceive task).map fun channel => channels.set k channel k.isLt

/-- What tasks did, in the order in which they did it. -/
abbrev Log (τ : Type) (n : ℕ) := List (τ × Deed n)

/-- The channels after all deeds of a log. -/
def replay [DecidableEq τ] (channels : Vector (Channel τ) n) :
    Log τ n → Option (Vector (Channel τ) n)
  | [] => some channels
  | (task, deed) :: rest => (deed.replay task channels).bind fun next => replay next rest

/-- The deeds of one task as a log. -/
def logged (task : τ) (deeds : List (Deed n)) : Log τ n := deeds.map fun deed => (task, deed)

/-- The deeds of a task in a log. -/
def deedsOf [DecidableEq τ] (task : τ) (log : Log τ n) : List (Deed n) :=
  log.filterMap fun (other, deed) => if other = task then some deed else none

section Log

variable [DecidableEq τ] {task other : τ} {deeds : List (Deed n)}

theorem replay_append (channels : Vector (Channel τ) n) (first second : Log τ n) :
    replay channels (first ++ second) =
      (replay channels first).bind fun next => replay next second := by
  induction first generalizing channels with
  | nil => rfl
  | cons entry rest ih =>
      obtain ⟨task, deed⟩ := entry
      simp only [List.cons_append, replay, Option.bind_assoc, ih]

@[simp] theorem deedsOf_nil : deedsOf task ([] : Log τ n) = [] := rfl

@[simp] theorem deedsOf_append (first second : Log τ n) :
    deedsOf task (first ++ second) = deedsOf task first ++ deedsOf task second :=
  List.filterMap_append

@[simp] theorem deedsOf_logged_self : deedsOf task (logged task deeds) = deeds := by
  induction deeds with
  | nil => rfl
  | cons deed rest ih => simp_all [deedsOf, logged]

theorem deedsOf_logged_of_ne (hne : other ≠ task) : deedsOf other (logged task deeds) = [] := by
  simp [deedsOf, logged, hne.symm]

end Log

/-! ## Values that pass through a channel -/

namespace Comm

/-- The value that is sent into channel `k`. -/
def sent? (k : Fin n) : Comm n → Option Int64
  | .sent j value => if j = k then some value else none
  | .received _ _ => none

/-- The value that is received from channel `k`. -/
def received? (k : Fin n) : Comm n → Option Int64
  | .received j value => if j = k then some value else none
  | .sent _ _ => none

end Comm

/-- The values that were put into channel `k`, in the order in which they were. -/
def sentOn (k : Fin n) (log : Log τ n) : List Int64 :=
  log.filterMap fun (_, deed) => deed.comm?.bind (Comm.sent? k)

/-- The values that were taken out of channel `k`, in the order in which they were. -/
def receivedOn (k : Fin n) (log : Log τ n) : List Int64 :=
  log.filterMap fun (_, deed) => deed.comm?.bind (Comm.received? k)

section Values

variable {k : Fin n}

@[simp] theorem sentOn_append (first second : Log τ n) :
    sentOn k (first ++ second) = sentOn k first ++ sentOn k second := List.filterMap_append

@[simp] theorem receivedOn_append (first second : Log τ n) :
    receivedOn k (first ++ second) = receivedOn k first ++ receivedOn k second :=
  List.filterMap_append

theorem sentOn_cons (task : τ) (deed : Deed n) (rest : Log τ n) :
    sentOn k ((task, deed) :: rest) = (deed.comm?.bind (Comm.sent? k)).toList ++ sentOn k rest := by
  cases hsent : deed.comm?.bind (Comm.sent? k) <;> simp [sentOn, hsent]

theorem receivedOn_cons (task : τ) (deed : Deed n) (rest : Log τ n) :
    receivedOn k ((task, deed) :: rest) =
      (deed.comm?.bind (Comm.received? k)).toList ++ receivedOn k rest := by
  cases hreceived : deed.comm?.bind (Comm.received? k) <;> simp [receivedOn, hreceived]

theorem sentOn_concat (log : Log τ n) (task : τ) (deed : Deed n) :
    sentOn k (log ++ [(task, deed)]) =
      sentOn k log ++ (deed.comm?.bind (Comm.sent? k)).toList := by
  rw [sentOn_append, sentOn_cons]
  exact congrArg _ (List.append_nil _)

theorem receivedOn_concat (log : Log τ n) (task : τ) (deed : Deed n) :
    receivedOn k (log ++ [(task, deed)]) =
      receivedOn k log ++ (deed.comm?.bind (Comm.received? k)).toList := by
  rw [receivedOn_append, receivedOn_cons]
  exact congrArg _ (List.append_nil _)

theorem get_set_self (channels : Vector (Channel τ) n) (channel : Channel τ) :
    (channels.set k channel k.isLt).get k = channel :=
  Vector.getElem_set_self k.isLt

theorem get_set_of_ne {j : Fin n} (hne : j ≠ k) (channels : Vector (Channel τ) n)
    (channel : Channel τ) : (channels.set k channel k.isLt).get j = channels.get j :=
  Vector.getElem_set_ne k.isLt j.isLt fun heq => hne (Fin.ext heq.symm)

variable {channels next : Vector (Channel τ) n}

/-- Only the channel that a deed is on can get another buffer. -/
theorem buffer_set {j : Fin n} {channel : Channel τ} (put taken : Option Int64) {deed : Deed n}
    (hbuffer : (channels.get j).buffer ++ put.toList = taken.toList ++ channel.buffer)
    (hput : deed.comm?.bind (Comm.sent? k) = if j = k then put else none)
    (htaken : deed.comm?.bind (Comm.received? k) = if j = k then taken else none) :
    (channels.get k).buffer ++ (deed.comm?.bind (Comm.sent? k)).toList =
      (deed.comm?.bind (Comm.received? k)).toList ++
        ((channels.set j channel j.isLt).get k).buffer := by
  rw [hput, htaken]
  by_cases hj : j = k
  · subst hj
    rw [if_pos rfl, if_pos rfl, get_set_self]
    exact hbuffer
  · rw [if_neg hj, if_neg hj, get_set_of_ne (Ne.symm hj)]
    exact List.append_nil _

/-- A channel is replaced by one of its own capacity. -/
theorem capacity_set {j : Fin n} {channel : Channel τ}
    (hcapacity : channel.capacity = (channels.get j).capacity) (k : Fin n) :
    ((channels.set j channel j.isLt).get k).capacity = (channels.get k).capacity := by
  by_cases hk : k = j
  · subst hk
    rw [get_set_self, hcapacity]
  · rw [get_set_of_ne hk]

variable [DecidableEq τ] {task : τ}

/-- A deed changes a buffer by the value that it puts in or takes out. -/
theorem Deed.buffer_replay {deed : Deed n} (hreplay : deed.replay task channels = some next) :
    (channels.get k).buffer ++ (deed.comm?.bind (Comm.sent? k)).toList =
      (deed.comm?.bind (Comm.received? k)).toList ++ (next.get k).buffer := by
  cases deed with
  | begin =>
      cases hreplay
      exact List.append_nil _
  | send j value status =>
      rcases hsend : (channels.get j).send value task with ⟨answer, woken, channel⟩
      simp only [replay, hsend, Option.ite_none_right_eq_some, Option.some.injEq] at hreplay
      obtain ⟨rfl, rfl⟩ := hreplay
      -- only a send that is served at once puts its value into the buffer
      have hbuffer := (Channel.buffer_send hsend).1
      -- a receive takes a value only if one is there
      cases answer with
      | delivered => exact buffer_set (some value) none hbuffer.symm rfl (ite_self none).symm
      | blocked => exact buffer_set none none hbuffer.symm (ite_self none).symm (ite_self none).symm
  | finishSend j value =>
      cases hreplay
      exact buffer_set (some value) none rfl rfl (ite_self none).symm
  | cancelSend j =>
      obtain ⟨channel, hcancel, rfl⟩ := Option.map_eq_some_iff.mp hreplay
      have hbuffer := (Channel.buffer_cancelSend hcancel).1
      exact buffer_set none none (by simp [hbuffer]) (ite_self none).symm (ite_self none).symm
  | receive j status =>
      rcases hreceive : (channels.get j).receive task with broken | ⟨answer, woken, channel⟩
      · simp [replay, hreceive] at hreplay
      · simp only [replay, hreceive, Option.ite_none_right_eq_some, Option.some.injEq] at hreplay
        obtain ⟨rfl, rfl⟩ := hreplay
        have hbuffer := (Channel.buffer_receive hreceive).1
        cases answer with
        | received value =>
            exact buffer_set none (some value) ((List.append_nil _).trans hbuffer)
              (ite_self none).symm rfl
        | blocked =>
            exact buffer_set none none ((List.append_nil _).trans hbuffer) (ite_self none).symm
              (ite_self none).symm
  | finishReceive j value =>
      rcases hfinish : (channels.get j).finishReceive with broken | ⟨taken, channel⟩
      · simp [replay, hfinish] at hreplay
      · simp only [replay, hfinish, Option.ite_none_right_eq_some, Option.some.injEq] at hreplay
        obtain ⟨rfl, rfl⟩ := hreplay
        have hbuffer := (Channel.buffer_take hfinish).1
        exact buffer_set none (some taken) ((List.append_nil _).trans hbuffer) (ite_self none).symm
          rfl
  | cancelReceive j =>
      obtain ⟨channel, hcancel, rfl⟩ := Option.map_eq_some_iff.mp hreplay
      -- no withdrawal touches the buffer
      have hbuffer := (Channel.buffer_cancelReceive hcancel).1
      exact buffer_set none none (by simp [hbuffer]) (ite_self none).symm (ite_self none).symm

/-- What was put into a channel has been taken out, or is still in its buffer. -/
theorem buffer_replay {log : Log τ n} (hreplay : replay channels log = some next) :
    (channels.get k).buffer ++ sentOn k log = receivedOn k log ++ (next.get k).buffer := by
  induction log generalizing channels with
  | nil =>
      cases hreplay
      simp [sentOn, receivedOn]
  | cons entry rest ih =>
      obtain ⟨task, deed⟩ := entry
      obtain ⟨between, hdeed, hrest⟩ := Option.bind_eq_some_iff.mp hreplay
      rw [sentOn_cons, receivedOn_cons, ← List.append_assoc, Deed.buffer_replay hdeed,
        List.append_assoc, ih hrest, List.append_assoc]

theorem Deed.capacity_replay {deed : Deed n} (hreplay : deed.replay task channels = some next)
    (k : Fin n) : (next.get k).capacity = (channels.get k).capacity := by
  -- every operation on a channel keeps its capacity, and only one channel is replaced
  cases deed with
  | begin =>
      cases hreplay
      rfl
  | send j value status =>
      rcases hsend : (channels.get j).send value task with ⟨answer, woken, channel⟩
      simp only [replay, hsend, Option.ite_none_right_eq_some, Option.some.injEq] at hreplay
      obtain ⟨-, rfl⟩ := hreplay
      exact capacity_set (Channel.buffer_send hsend).2 k
  | finishSend j value =>
      cases hreplay
      have hcapacity : ((channels.get j).finishSend value).2.capacity = (channels.get j).capacity := rfl
      exact capacity_set hcapacity k
  | cancelSend j =>
      obtain ⟨channel, hcancel, rfl⟩ := Option.map_eq_some_iff.mp hreplay
      have hcapacity := (Channel.buffer_cancelSend hcancel).2
      exact capacity_set hcapacity k
  | receive j status =>
      rcases hreceive : (channels.get j).receive task with broken | ⟨answer, woken, channel⟩
      · simp [replay, hreceive] at hreplay
      · simp only [replay, hreceive, Option.ite_none_right_eq_some, Option.some.injEq] at hreplay
        obtain ⟨-, rfl⟩ := hreplay
        exact capacity_set (Channel.buffer_receive hreceive).2 k
  | finishReceive j value =>
      rcases hfinish : (channels.get j).finishReceive with broken | ⟨taken, channel⟩
      · simp [replay, hfinish] at hreplay
      · simp only [replay, hfinish, Option.ite_none_right_eq_some, Option.some.injEq] at hreplay
        obtain ⟨-, rfl⟩ := hreplay
        exact capacity_set (Channel.buffer_take hfinish).2 k
  | cancelReceive j =>
      obtain ⟨channel, hcancel, rfl⟩ := Option.map_eq_some_iff.mp hreplay
      have hcapacity := (Channel.buffer_cancelReceive hcancel).2
      exact capacity_set hcapacity k

/-- Whatever tasks do, channels keep their capacities. -/
theorem capacity_replay {log : Log τ n} (hreplay : replay channels log = some next) (k : Fin n) :
    (next.get k).capacity = (channels.get k).capacity := by
  induction log generalizing channels with
  | nil =>
      cases hreplay
      rfl
  | cons entry rest ih =>
      obtain ⟨task, deed⟩ := entry
      obtain ⟨between, hdeed, hrest⟩ := Option.bind_eq_some_iff.mp hreplay
      exact (ih hrest).trans (Deed.capacity_replay hdeed k)

end Values

/-! ## What a task can do -/

/-- What follows an operation; nothing does if it faults. -/
def following {α β : Type} (result : Except Fault α) (next : α → List β) : List β :=
  match result with
  | .ok outcome => next outcome
  | .error _ => []

@[simp] theorem following_ok {α β : Type} (outcome : α) (next : α → List β) :
    following (.ok outcome) next = next outcome := rfl

namespace Fabric

/-- What a task does that has all it needs: nothing, or it sends a value into a
channel that it can reach. -/
inductive Offers (reach : Fin n → Prop) (task : τ) (fabric : Fabric τ n) :
    List (Deed n) → Fabric τ n → Option (Engagement n) → Prop where
  | nothing : Offers reach task fabric [] fabric none
  | send {k : Fin n} {value : Int64} {status : SendStatus} {rest : Fabric τ n} (hreach : reach k)
      (hsend : fabric.send k value task = (status, rest)) :
      Offers reach task fabric [.send k value status] rest (Engagement.ofSend k value status)

/-- What a task does in a step that it begins: it receives a value or does not, and
goes on if it does not have to wait. -/
inductive Begins (reach : Fin n → Prop) (task : τ) (fabric : Fabric τ n) :
    List (Deed n) → Fabric τ n → Option (Engagement n) → Prop where
  | offers {deeds : List (Deed n)} {rest : Fabric τ n} {after : Option (Engagement n)}
      (hoffers : fabric.Offers reach task deeds rest after) :
      Begins reach task fabric deeds rest after
  | waits {k : Fin n} {rest : Fabric τ n} (hreach : reach k)
      (hreceive : fabric.receive k task = .ok (.blocked, rest)) :
      Begins reach task fabric [.receive k .blocked] rest (some (.receiving k))
  | takes {k : Fin n} {value : Int64} {between rest : Fabric τ n} {deeds : List (Deed n)}
      {after : Option (Engagement n)} (hreach : reach k)
      (hreceive : fabric.receive k task = .ok (.received value, between))
      (hoffers : between.Offers reach task deeds rest after) :
      Begins reach task fabric (.receive k (.received value) :: deeds) rest after

/-- What a task does that has been woken from the given engagement. -/
inductive Resumes (reach : Fin n → Prop) (task : τ) (fabric : Fabric τ n) :
    Option (Engagement n) → List (Deed n) → Fabric τ n → Option (Engagement n) → Prop where
  | delivers {k : Fin n} {value : Int64} :
      Resumes reach task fabric (some (.sending k value)) [.finishSend k value]
        (fabric.finishSend k value) none
  | takes {k : Fin n} {value : Int64} {between rest : Fabric τ n} {deeds : List (Deed n)}
      {after : Option (Engagement n)} (hfinish : fabric.finishReceive k = .ok (value, between))
      (hoffers : between.Offers reach task deeds rest after) :
      Resumes reach task fabric (some (.receiving k)) (.finishReceive k value :: deeds) rest after

/-- What a task does that takes back what it is engaged in. -/
inductive Withdraws [DecidableEq τ] (task : τ) (fabric : Fabric τ n) :
    Option (Engagement n) → List (Deed n) → Fabric τ n → Prop where
  | send {k : Fin n} {value : Int64} {rest : Fabric τ n}
      (hcancel : fabric.cancelSend k task = some rest) :
      Withdraws task fabric (some (.sending k value)) [.cancelSend k] rest
  | receive {k : Fin n} {rest : Fabric τ n} (hcancel : fabric.cancelReceive k task = some rest) :
      Withdraws task fabric (some (.receiving k)) [.cancelReceive k] rest

/-! What a task does can be replayed. -/

variable [DecidableEq τ] {reach : Fin n → Prop} {task : τ} {fabric rest : Fabric τ n}
  {deeds : List (Deed n)} {engagement after : Option (Engagement n)} {k : Fin n} {value : Int64}

theorem replay_send {status : SendStatus} (hsend : fabric.send k value task = (status, rest)) :
    Deed.replay task fabric.channels (.send k value status) = some rest.channels := by
  have hchannel : fabric.channels.get k = fabric.channel k := rfl
  simp only [Fabric.send] at hsend
  cases hsend
  simp only [Deed.replay, hchannel, if_true]
  rfl

theorem replay_receive {status : ReceiveStatus}
    (hreceive : fabric.receive k task = .ok (status, rest)) :
    Deed.replay task fabric.channels (.receive k status) = some rest.channels := by
  obtain ⟨⟨answer, woken, channel⟩, hchannel, hpair⟩ := bind_eq_ok.mp hreceive
  cases hpair
  have hget : fabric.channels.get k = fabric.channel k := rfl
  simp only [Deed.replay, hget, hchannel, if_true]
  rfl

theorem replay_finishReceive (hfinish : fabric.finishReceive k = .ok (value, rest)) :
    Deed.replay task fabric.channels (.finishReceive k value) = some rest.channels := by
  obtain ⟨⟨taken, channel⟩, hchannel, hpair⟩ := bind_eq_ok.mp hfinish
  cases hpair
  have hget : fabric.channels.get k = fabric.channel k := rfl
  simp only [Deed.replay, hget, hchannel, if_true]
  rfl

theorem Offers.replay (hoffers : fabric.Offers reach task deeds rest after) :
    replay fabric.channels (logged task deeds) = some rest.channels := by
  cases hoffers with
  | nothing => rfl
  | send hreach hsend => simp [logged, NodeGrid.replay, replay_send hsend]

theorem Begins.replay (hbegins : fabric.Begins reach task deeds rest after) :
    replay fabric.channels (logged task deeds) = some rest.channels := by
  cases hbegins with
  | offers hoffers => exact hoffers.replay
  | waits hreach hreceive => simp [logged, NodeGrid.replay, replay_receive hreceive]
  | takes hreach hreceive hoffers =>
      rw [logged, List.map_cons, NodeGrid.replay, replay_receive hreceive]
      exact hoffers.replay

theorem Resumes.replay (hresumes : fabric.Resumes reach task engagement deeds rest after) :
    replay fabric.channels (logged task deeds) = some rest.channels := by
  cases hresumes with
  | delivers => rfl
  | takes hfinish hoffers =>
      rw [logged, List.map_cons, NodeGrid.replay, replay_finishReceive hfinish]
      exact hoffers.replay

theorem Withdraws.replay (hwithdraws : fabric.Withdraws task engagement deeds rest) :
    replay fabric.channels (logged task deeds) = some rest.channels := by
  have hget : ∀ k, fabric.channels.get k = fabric.channel k := fun _ => rfl
  cases hwithdraws with
  | send hcancel =>
      obtain ⟨channel, hchannel, rfl⟩ := Option.map_eq_some_iff.mp hcancel
      simp only [logged, List.map_cons, List.map_nil, NodeGrid.replay, Deed.replay, hget, hchannel,
        Option.map_some, Option.bind_some]
      rfl
  | receive hcancel =>
      obtain ⟨channel, hchannel, rfl⟩ := Option.map_eq_some_iff.mp hcancel
      simp only [logged, List.map_cons, List.map_nil, NodeGrid.replay, Deed.replay, hget, hchannel,
        Option.map_some, Option.bind_some]
      rfl

end Fabric

end NodeGrid

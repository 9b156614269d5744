import NodeGrid.Proofs.Channel.Ledger

/-!
# Courses of actions

A `Run` keeps what happened in an exchange and how each action was answered.  When whole
runs are compared, the tasks that an action wakes matter as well.  A `Course` keeps them
too.  Its steps are separated into the answer of the channel (`serve`), for which it does
not matter what the tasks are in the middle of, and the phases after it (`after`);
`perform` is the two together (`perform_eq_serve`), and the courses of an unused channel
are its runs (`run_iff_course`).

What was offered last is never read, so that courses do not depend on it
(`Course.offering`).
-/

namespace NodeGrid

namespace Channel

variable {τ : Type} {channel next : Channel τ} {task : τ} {value : Int64}

theorem take_eq_ok_iff : channel.take = .ok (value, next) ↔
    ∃ buffer, channel.buffer = value :: buffer ∧ next = { channel with buffer } := by
  cases hbuffer : channel.buffer with
  | nil => simp [take, hbuffer]
  | cons first rest => simp [take, hbuffer, eq_comm]

theorem cancelReceive_lastSent [DecidableEq τ] (last : Option Int64) :
    ({ channel with lastSent := last } : Channel τ).cancelReceive task =
      (channel.cancelReceive task).map fun rest => { rest with lastSent := last } := by
  unfold cancelReceive
  split
  · rfl
  · rw [Option.map_map]
    rfl

end Channel

namespace Exchange

variable {τ : Type}

/-! ## What a channel answers -/

namespace Action

/-- The task that acts. -/
@[simp] def task : Action τ → τ
  | .send task _ | .finishSend task _ | .cancelSend task => task
  | .receive task | .finishReceive task | .cancelReceive task => task

/-- The phase that an action leaves its task in. -/
@[simp] def phaseAfter : Action τ → Reply → Phase → Phase
  | .send _ value, .blocked, _ => .parkedSend value
  | .receive _, .blocked, _ => .parkedReceive
  | _, .refused, phase => phase
  | _, _, _ => .idle

end Action

theorem Allows.congr {exchange start : Exchange τ} {action : Action τ}
    (hallowed : exchange.Allows action)
    (hphase : start.phase action.task = exchange.phase action.task) : start.Allows action := by
  cases action <;> simp only [Action.task] at hphase <;> simpa only [Allows, hphase] using hallowed

variable [DecidableEq τ]

/-- How a channel answers an action, whom the action wakes, and the channel after it. -/
def serve (channel : Channel τ) : Action τ → Except Fault (Reply × Option τ × Channel τ)
  | .send task value =>
    let (status, woken, channel) := channel.send value task
    .ok (.ofSend status, woken, channel)
  | .finishSend _ value => .ok (.delivered, channel.finishSend value)
  | .receive task => do
    let (status, woken, channel) ← channel.receive task
    return (.ofReceive status, woken, channel)
  | .finishReceive _ => do
    let (value, channel) ← channel.finishReceive
    return (.received value, none, channel)
  | .cancelSend task =>
    match channel.cancelSend task with
    | some channel => .ok (.withdrawn, none, channel)
    | none => .ok (.refused, none, channel)
  | .cancelReceive task =>
    match channel.cancelReceive task with
    | some channel => .ok (.withdrawn, none, channel)
    | none => .ok (.refused, none, channel)

/-- The exchange after an action with its answer. -/
def after (exchange : Exchange τ) (action : Action τ) (reply : Reply) (woken : Option τ)
    (channel : Channel τ) : Exchange τ :=
  exchange.advance channel woken action.task
    (action.phaseAfter reply (exchange.phase action.task))

variable {exchange : Exchange τ} {action : Action τ} {reply : Reply} {woken : Option τ}
  {task : τ} {channel next : Channel τ}

@[simp] theorem after_phase_self :
    (exchange.after action reply woken channel).phase action.task =
      action.phaseAfter reply (exchange.phase action.task) :=
  advance_phase_self ..

theorem after_phase_of_ne (hne : task ≠ action.task) :
    (exchange.after action reply woken channel).phase task = wakeIn exchange.phase woken task :=
  Function.update_of_ne hne ..

/-- A refused withdrawal changes nothing. -/
theorem after_refused (exchange : Exchange τ) (action : Action τ) :
    exchange.after action .refused none exchange.channel = exchange := by
  have hphase : action.phaseAfter .refused (exchange.phase action.task) =
      exchange.phase action.task := by
    cases action <;> rfl
  simp only [after, advance, hphase, wakeIn_none, Function.update_eq_self]

/-- Actions are carried out with the answers of the channel. -/
theorem perform_eq_serve (exchange : Exchange τ) (action : Action τ) :
    exchange.perform action = (serve exchange.channel action).map fun (reply, woken, channel) =>
      (reply, exchange.after action reply woken channel) := by
  cases action with
  | send task value =>
      -- whether a call waits decides the phase that its task gets
      obtain ⟨⟨status, woken, channel⟩, hsend⟩ :
        ∃ outcome, exchange.channel.send value task = outcome := ⟨_, rfl⟩
      simp only [perform, serve, hsend]
      cases status <;> rfl
  | finishSend task value => rfl
  | receive task =>
      cases hreceive : exchange.channel.receive task with
      | error broken =>
          simp only [perform, serve, hreceive]
          rfl
      | ok outcome =>
          obtain ⟨status, woken, channel⟩ := outcome
          simp only [perform, serve, hreceive, ok_bind]
          cases status <;> rfl
  | finishReceive task =>
      cases htake : exchange.channel.finishReceive with
      | error broken =>
          simp only [perform, serve, htake]
          rfl
      | ok outcome =>
          simp only [perform, serve, htake]
          rfl
  | cancelSend task =>
      -- a withdrawal that is refused leaves both sides as they were
      cases hcancel : exchange.channel.cancelSend task with
      | some channel =>
          simp only [perform, serve, hcancel]
          rfl
      | none => simp only [perform, serve, hcancel, Except.map, after_refused]
  | cancelReceive task =>
      cases hcancel : exchange.channel.cancelReceive task with
      | some channel =>
          simp only [perform, serve, hcancel]
          rfl
      | none => simp only [perform, serve, hcancel, Except.map, after_refused]

theorem perform_eq_ok_iff {last : Exchange τ} : exchange.perform action = .ok (reply, last) ↔
    ∃ woken channel, serve exchange.channel action = .ok (reply, woken, channel) ∧
      last = exchange.after action reply woken channel := by
  rw [perform_eq_serve]
  cases hserve : serve exchange.channel action with
  | error broken => simp [Except.map]
  | ok outcome =>
      obtain ⟨answer, woken, channel⟩ := outcome
      simp only [Except.map, Except.ok.injEq, Prod.mk.injEq]
      constructor
      · rintro ⟨rfl, rfl⟩
        exact ⟨woken, channel, ⟨rfl, rfl, rfl⟩, rfl⟩
      · rintro ⟨_, _, ⟨rfl, rfl, rfl⟩, rfl⟩
        exact ⟨rfl, rfl⟩

theorem serve_cancelSend_eq_withdrawn_iff :
    serve channel (.cancelSend task) = .ok (.withdrawn, woken, next) ↔
      channel.cancelSend task = some next ∧ woken = none := by
  cases hcancel : channel.cancelSend task <;> simp [serve, hcancel, eq_comm, and_comm]

theorem serve_cancelReceive_eq_withdrawn_iff :
    serve channel (.cancelReceive task) = .ok (.withdrawn, woken, next) ↔
      channel.cancelReceive task = some next ∧ woken = none := by
  cases hcancel : channel.cancelReceive task <;> simp [serve, hcancel, eq_comm, and_comm]

/-- Only withdrawals can succeed as withdrawals, or be refused. -/
theorem cancels_of_serve (hserve : serve channel action = .ok (reply, woken, next))
    (hreply : reply = .withdrawn ∨ reply = .refused) :
    ∃ task, action = .cancelSend task ∨ action = .cancelReceive task := by
  -- calls are delivered, received or blocked, and the ends of calls are never refused
  cases action with
  | send task value =>
      obtain ⟨⟨status, woken, sent⟩, hsend⟩ : ∃ outcome, channel.send value task = outcome :=
        ⟨_, rfl⟩
      simp only [serve, hsend] at hserve
      cases hserve
      cases status <;> simp [Reply.ofSend] at hreply
  | finishSend task value =>
      cases hserve
      simp at hreply
  | receive task =>
      obtain ⟨⟨status, woken, received⟩, -, hpair⟩ := bind_eq_ok.mp hserve
      cases hpair
      cases status <;> simp [Reply.ofReceive] at hreply
  | finishReceive task =>
      obtain ⟨⟨value, taken⟩, -, hpair⟩ := bind_eq_ok.mp hserve
      cases hpair
      simp at hreply
  | cancelSend task => exact ⟨task, Or.inl rfl⟩
  | cancelReceive task => exact ⟨task, Or.inr rfl⟩

/-- A refused withdrawal leaves the channel as it is. -/
theorem channel_of_refused (hserve : serve channel action = .ok (.refused, woken, next)) :
    next = channel := by
  obtain ⟨task, rfl | rfl⟩ := cancels_of_serve hserve (Or.inr rfl)
  · cases hcancel : channel.cancelSend task <;> simp_all [serve]
  · cases hcancel : channel.cancelReceive task <;> simp_all [serve]

theorem Sound.after [Fintype τ] (hsound : exchange.Sound Finset.univ) (hallowed : exchange.Allows action)
    (hserve : serve exchange.channel action = .ok (reply, woken, channel)) :
    (exchange.after action reply woken channel).Sound Finset.univ := by
  obtain ⟨_, next, hperform, hnext⟩ := hsound.perform hallowed
  rw [perform_eq_ok_iff.mpr ⟨_, _, hserve, rfl⟩] at hperform
  cases hperform
  exact hnext

/-- The exchange with another value as the last that was offered. -/
def offering (exchange : Exchange τ) (value : Option Int64) : Exchange τ :=
  { exchange with channel := { exchange.channel with lastSent := value } }

/-- No answer depends on the value that was offered last. -/
theorem serve_offering (hserve : serve channel action = .ok (reply, woken, next))
    (value : Option Int64) :
    ∃ offered, serve { channel with lastSent := value } action =
      .ok (reply, woken, { next with lastSent := offered }) := by
  cases action with
  | send task sent =>
      -- a send replaces the value, whether it waits or not
      rcases hwait : channel.emptySlots.wait task with ⟨answer, slots⟩
      cases answer <;> simp only [serve, Channel.send, hwait] at hserve ⊢ <;> cases hserve
      · exact ⟨some sent, rfl⟩
      · exact ⟨some sent, rfl⟩
  | finishSend task sent =>
      cases hserve
      exact ⟨value, rfl⟩
  | receive task =>
      obtain ⟨⟨status, woken, received⟩, hreceive, hpair⟩ := bind_eq_ok.mp hserve
      cases hpair
      refine ⟨value, bind_eq_ok.mpr ⟨(status, woken, { next with lastSent := value }), ?_, rfl⟩⟩
      -- a receive looks at the line and the buffer only
      rcases hwait : channel.filledSlots.wait task with ⟨answer, slots⟩
      simp only [Channel.receive, hwait] at hreceive ⊢
      cases answer with
      | granted =>
          obtain ⟨⟨taken, rest⟩, htake, hpair⟩ := bind_eq_ok.mp hreceive
          cases hpair
          obtain ⟨buffer, hbuffer, rfl⟩ := Channel.take_eq_ok_iff.mp htake
          exact bind_eq_ok.mpr ⟨_, Channel.take_eq_ok_iff.mpr ⟨buffer, hbuffer, rfl⟩, rfl⟩
      | suspended =>
          cases hreceive
          rfl
  | finishReceive task =>
      obtain ⟨⟨taken, rest⟩, htake, hpair⟩ := bind_eq_ok.mp hserve
      cases hpair
      obtain ⟨buffer, hbuffer, rfl⟩ := Channel.take_eq_ok_iff.mp htake
      refine ⟨value, bind_eq_ok.mpr ⟨_, Channel.take_eq_ok_iff.mpr ⟨buffer, hbuffer, rfl⟩, rfl⟩⟩
  | cancelSend task =>
      cases hcancel : channel.emptySlots.cancel task <;>
        simp only [serve, Channel.cancelSend, hcancel, Option.map_none, Option.map_some] at hserve ⊢ <;>
        cases hserve
      · exact ⟨value, rfl⟩
      · exact ⟨value, rfl⟩
  | cancelReceive task =>
      cases hcancel : channel.cancelReceive task with
      | none =>
          simp only [serve, Channel.cancelReceive_lastSent, hcancel, Option.map_none] at hserve ⊢
          cases hserve
          exact ⟨value, rfl⟩
      | some rest =>
          simp only [serve, Channel.cancelReceive_lastSent, hcancel, Option.map_some] at hserve ⊢
          cases hserve
          exact ⟨value, rfl⟩

/-! ## Courses -/

/-- An action of an exchange, its answer and the task that it woke. -/
structure Record (τ : Type) where
  action : Action τ
  reply : Reply
  woken : Option τ

/-- Actions that the protocol allows, one after the other. -/
inductive Course : Exchange τ → List (Record τ) → Exchange τ → Prop where
  | nil {exchange : Exchange τ} : Course exchange [] exchange
  | cons {exchange last : Exchange τ} {action : Action τ} {reply : Reply} {woken : Option τ}
      {channel : Channel τ} {rest : List (Record τ)} (hallowed : exchange.Allows action)
      (hserve : serve exchange.channel action = .ok (reply, woken, channel))
      (hrest : Course (exchange.after action reply woken channel) rest last) :
      Course exchange (⟨action, reply, woken⟩ :: rest) last

/-- The event of a record. -/
def Record.event (record : Record τ) : Event τ := (record.action, record.reply)

variable {start last : Exchange τ} {records rest : List (Record τ)} {capacity : ℕ}
  {events : List (Event τ)}

theorem Course.append (hfirst : Course exchange records start) (hsecond : Course start rest last) :
    Course exchange (records ++ rest) last := by
  induction hfirst with
  | nil => exact hsecond
  | cons hallowed hserve hrest ih => exact .cons hallowed hserve (ih hsecond)

/-- The courses of an unused channel are its runs, with the tasks that were woken. -/
theorem run_iff_course : Run capacity events exchange ↔
    ∃ records, Course (ofCapacity capacity) records exchange ∧
      records.map Record.event = events := by
  constructor
  · intro hrun
    induction hrun with
    | start => exact ⟨[], .nil, rfl⟩
    | act hrun hallowed hperform ih =>
        obtain ⟨records, hcourse, rfl⟩ := ih
        obtain ⟨woken, channel, hserve, rfl⟩ := perform_eq_ok_iff.mp hperform
        exact ⟨_, hcourse.append (.cons hallowed hserve .nil), by simp [Record.event]⟩
  · rintro ⟨records, hcourse, rfl⟩
    -- a run grows at its end, so it is followed from any moment on
    suffices hlater : ∀ {start last : Exchange τ} {records : List (Record τ)}
        {events : List (Event τ)}, Course start records last → Run capacity events start →
          Run capacity (events ++ records.map Record.event) last from hlater hcourse .start
    intro start last records events hcourse hrun
    induction hcourse generalizing events with
    | nil => simpa using hrun
    | cons hallowed hserve hrest ih =>
        have hnext := ih (hrun.act hallowed (perform_eq_ok_iff.mpr ⟨_, _, hserve, rfl⟩))
        rwa [List.append_assoc] at hnext

theorem Course.offering (hcourse : Course exchange records last) (value : Option Int64) :
    ∃ offered, Course (exchange.offering value) records (last.offering offered) := by
  induction hcourse generalizing value with
  | nil => exact ⟨value, .nil⟩
  | cons hallowed hserve hrest ih =>
      obtain ⟨sent, hoffered⟩ := serve_offering hserve value
      obtain ⟨offered, hlast⟩ := ih sent
      exact ⟨offered, .cons (hallowed.congr rfl) hoffered hlast⟩

end Exchange

end NodeGrid

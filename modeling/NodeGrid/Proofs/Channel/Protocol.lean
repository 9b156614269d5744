import NodeGrid.Channel
import NodeGrid.Proofs.Yields
import Mathlib.Algebra.BigOperators.Group.Finset.Piecewise
import Mathlib.Algebra.Order.BigOperators.Group.Finset
import Mathlib.Data.Fintype.Card

/-!
# The protocol of a channel

A channel counts on the tasks that use it: a task starts an operation only while
it has none outstanding, and a task that was woken ends its operation once.  An
`Exchange` is a channel together with what each task is in the middle of, its
`Phase`.  `Allows` is the protocol, `perform` carries an action out on the
channel, and a `Run` is any interleaving of allowed actions from an unused
channel, with the replies they got.

Tasks are counted by phase with `tally`.  An action changes the phases of its own
task and of the one it wakes, so a tally follows from
`tally_advance_of_wake`.
-/

namespace NodeGrid

/-! ## Phases -/

/-- Where a task stands with a channel. -/
inductive Phase where
  /-- No operation of the task is outstanding. -/
  | idle
  /-- Waits for a slot. -/
  | parkedSend (value : Int64)
  /-- Has been given a slot and not yet filled it. -/
  | wokenSend (value : Int64)
  /-- Waits for a value. -/
  | parkedReceive
  /-- Has been promised a value and not yet taken it. -/
  | wokenReceive
deriving DecidableEq

namespace Phase

/-- The phase of a task after a semaphore has woken it. -/
def wake : Phase → Phase
  | .parkedSend value => .wokenSend value
  | .parkedReceive => .wokenReceive
  | phase => phase

/-- Whether a send waits. -/
@[simp] def isParkedSend : Phase → Bool
  | .parkedSend _ => true
  | _ => false

/-- Whether a send has been woken. -/
@[simp] def isWokenSend : Phase → Bool
  | .wokenSend _ => true
  | _ => false

/-- Whether a receive waits. -/
@[simp] def isParkedReceive : Phase → Bool
  | .parkedReceive => true
  | _ => false

/-- Whether a receive has been woken. -/
@[simp] def isWokenReceive : Phase → Bool
  | .wokenReceive => true
  | _ => false

theorem isParkedSend_iff {phase : Phase} :
    phase.isParkedSend = true ↔ ∃ value, phase = .parkedSend value := by
  cases phase <;> simp

theorem isWokenSend_iff {phase : Phase} :
    phase.isWokenSend = true ↔ ∃ value, phase = .wokenSend value := by
  cases phase <;> simp

theorem isParkedReceive_iff {phase : Phase} :
    phase.isParkedReceive = true ↔ phase = .parkedReceive := by
  cases phase <;> simp

@[simp] theorem isParkedSend_wake (phase : Phase) : phase.wake.isParkedSend = false := by
  cases phase <;> rfl

@[simp] theorem isParkedReceive_wake (phase : Phase) : phase.wake.isParkedReceive = false := by
  cases phase <;> rfl

end Phase

/-! ## Exchanges -/

/-- A channel and what its tasks are in the middle of. -/
structure Exchange (τ : Type) where
  channel : Channel τ
  phase : τ → Phase

namespace Exchange

variable {τ : Type}

/-- An unused channel and tasks that have not started. -/
def ofCapacity (capacity : ℕ) : Exchange τ where
  channel := .ofCapacity capacity
  phase := fun _ => .idle

/-- What a task can do with the channel. -/
inductive Action (τ : Type) where
  | send (task : τ) (value : Int64)
  | finishSend (task : τ) (value : Int64)
  | receive (task : τ)
  | finishReceive (task : τ)
  | cancelSend (task : τ)
  | cancelReceive (task : τ)

/-- How the channel answers. -/
inductive Reply where
  | delivered
  | received (value : Int64)
  | blocked
  /-- The operation has been taken back. -/
  | withdrawn
  /-- The operation can no longer be taken back. -/
  | refused
deriving DecidableEq

/-- The phase that a send leaves its task in. -/
def sendPhase (value : Int64) : SendStatus → Phase
  | .delivered => .idle
  | .blocked => .parkedSend value

/-- The phase that a receive leaves its task in. -/
def receivePhase : ReceiveStatus → Phase
  | .received _ => .idle
  | .blocked => .parkedReceive

/-- The reply to a send. -/
def Reply.ofSend : SendStatus → Reply
  | .delivered => .delivered
  | .blocked => .blocked

/-- The reply to a receive. -/
def Reply.ofReceive : ReceiveStatus → Reply
  | .received value => .received value
  | .blocked => .blocked

/-- The protocol: a task starts an operation only when it has none outstanding,
ends the one it was woken from with the value it was started with, and takes
back only an operation of its own. -/
def Allows (exchange : Exchange τ) : Action τ → Prop
  | .send task _ => exchange.phase task = .idle
  | .finishSend task value => exchange.phase task = .wokenSend value
  | .receive task => exchange.phase task = .idle
  | .finishReceive task => exchange.phase task = .wokenReceive
  | .cancelSend task =>
    ∃ value, exchange.phase task = .parkedSend value ∨ exchange.phase task = .wokenSend value
  | .cancelReceive task =>
    exchange.phase task = .parkedReceive ∨ exchange.phase task = .wokenReceive

section Perform

variable [DecidableEq τ]

/-- The phases after the given task, if any, has been woken. -/
def wakeIn (phase : τ → Phase) : Option τ → τ → Phase
  | none => phase
  | some woken => Function.update phase woken (phase woken).wake

/-- The exchange after an action of `task` that leaves it in `phase` and wakes
`woken`. -/
def advance (exchange : Exchange τ) (channel : Channel τ) (woken : Option τ) (task : τ)
    (phase : Phase) : Exchange τ where
  channel
  phase := Function.update (wakeIn exchange.phase woken) task phase

/-- Carries out an action on the channel. -/
def perform (exchange : Exchange τ) : Action τ → Except Fault (Reply × Exchange τ)
  | .send task value =>
    let (status, woken, channel) := exchange.channel.send value task
    .ok (.ofSend status, exchange.advance channel woken task (sendPhase value status))
  | .finishSend task value =>
    let (woken, channel) := exchange.channel.finishSend value
    .ok (.delivered, exchange.advance channel woken task .idle)
  | .receive task => do
    let (status, woken, channel) ← exchange.channel.receive task
    return (.ofReceive status, exchange.advance channel woken task (receivePhase status))
  | .finishReceive task => do
    let (value, channel) ← exchange.channel.finishReceive
    return (.received value, exchange.advance channel none task .idle)
  | .cancelSend task =>
    match exchange.channel.cancelSend task with
    | some channel => .ok (.withdrawn, exchange.advance channel none task .idle)
    | none => .ok (.refused, exchange)
  | .cancelReceive task =>
    match exchange.channel.cancelReceive task with
    | some channel => .ok (.withdrawn, exchange.advance channel none task .idle)
    | none => .ok (.refused, exchange)

/-- What happened in an exchange: an action and the reply to it. -/
abbrev Event (τ : Type) := Action τ × Reply

/-- The runs of a channel: tasks act in any order that the protocol allows. -/
inductive Run (capacity : ℕ) : List (Event τ) → Exchange τ → Prop where
  | start : Run capacity [] (ofCapacity capacity)
  | act {events : List (Event τ)} {exchange next : Exchange τ} {action : Action τ}
      {reply : Reply} (hrun : Run capacity events exchange) (hallowed : exchange.Allows action)
      (hperform : exchange.perform action = .ok (reply, next)) :
      Run capacity (events ++ [(action, reply)]) next

/-! What a performed action comes from. -/

theorem perform_send {exchange next : Exchange τ} {task : τ} {value : Int64} {reply : Reply}
    (hperform : exchange.perform (.send task value) = .ok (reply, next)) :
    ∃ status woken channel, exchange.channel.send value task = (status, woken, channel) ∧
      reply = .ofSend status ∧
      next = exchange.advance channel woken task (sendPhase value status) := by
  obtain ⟨⟨status, woken, channel⟩, hsend⟩ : ∃ outcome, exchange.channel.send value task = outcome :=
    ⟨_, rfl⟩
  simp only [perform, hsend] at hperform
  cases hperform
  exact ⟨status, woken, channel, hsend, rfl, rfl⟩

theorem perform_receive {exchange next : Exchange τ} {task : τ} {reply : Reply}
    (hperform : exchange.perform (.receive task) = .ok (reply, next)) :
    ∃ status woken channel, exchange.channel.receive task = .ok (status, woken, channel) ∧
      reply = .ofReceive status ∧
      next = exchange.advance channel woken task (receivePhase status) := by
  obtain ⟨⟨status, woken, channel⟩, hreceive, hreply⟩ := bind_eq_ok.mp hperform
  cases hreply
  exact ⟨status, woken, channel, hreceive, rfl, rfl⟩

theorem perform_finishReceive {exchange next : Exchange τ} {task : τ} {reply : Reply}
    (hperform : exchange.perform (.finishReceive task) = .ok (reply, next)) :
    ∃ value channel, exchange.channel.take = .ok (value, channel) ∧
      reply = .received value ∧ next = exchange.advance channel none task .idle := by
  obtain ⟨⟨value, channel⟩, htake, hreply⟩ := bind_eq_ok.mp hperform
  cases hreply
  exact ⟨value, channel, htake, rfl, rfl⟩

theorem perform_cancelSend {exchange next : Exchange τ} {task : τ} {reply : Reply}
    (hperform : exchange.perform (.cancelSend task) = .ok (reply, next)) :
    (∃ channel, exchange.channel.cancelSend task = some channel ∧ reply = .withdrawn ∧
        next = exchange.advance channel none task .idle) ∨
      (exchange.channel.cancelSend task = none ∧ reply = .refused ∧ next = exchange) := by
  unfold perform at hperform
  cases hcancel : exchange.channel.cancelSend task with
  | none =>
      simp only [hcancel] at hperform
      cases hperform
      exact Or.inr ⟨rfl, rfl, rfl⟩
  | some channel =>
      simp only [hcancel] at hperform
      cases hperform
      exact Or.inl ⟨channel, rfl, rfl, rfl⟩

theorem perform_cancelReceive {exchange next : Exchange τ} {task : τ} {reply : Reply}
    (hperform : exchange.perform (.cancelReceive task) = .ok (reply, next)) :
    (∃ channel, exchange.channel.cancelReceive task = some channel ∧ reply = .withdrawn ∧
        next = exchange.advance channel none task .idle) ∨
      (exchange.channel.cancelReceive task = none ∧ reply = .refused ∧ next = exchange) := by
  unfold perform at hperform
  cases hcancel : exchange.channel.cancelReceive task with
  | none =>
      simp only [hcancel] at hperform
      cases hperform
      exact Or.inr ⟨rfl, rfl, rfl⟩
  | some channel =>
      simp only [hcancel] at hperform
      cases hperform
      exact Or.inl ⟨channel, rfl, rfl, rfl⟩

@[simp] theorem wakeIn_none (phase : τ → Phase) : wakeIn phase none = phase := rfl

@[simp] theorem wakeIn_some (phase : τ → Phase) (woken : τ) :
    wakeIn phase (some woken) = Function.update phase woken (phase woken).wake := rfl

theorem wakeIn_of_ne {phase : τ → Phase} {woken : Option τ} {task : τ}
    (hne : woken ≠ some task) : wakeIn phase woken task = phase task := by
  cases woken with
  | none => rfl
  | some woken => exact Function.update_of_ne (fun heq => hne (congrArg some heq.symm)) _ _

@[simp] theorem advance_channel (exchange : Exchange τ) (channel : Channel τ)
    (woken : Option τ) (task : τ) (phase : Phase) :
    (exchange.advance channel woken task phase).channel = channel := rfl

@[simp] theorem advance_phase_self (exchange : Exchange τ) (channel : Channel τ)
    (woken : Option τ) (task : τ) (phase : Phase) :
    (exchange.advance channel woken task phase).phase task = phase :=
  Function.update_self ..

/-- An action of a user leaves all other tasks idle that are. -/
theorem idle_advance {exchange : Exchange τ} {users : Finset τ} {task : τ}
    (hout : ∀ other ∉ users, exchange.phase other = .idle)
    (channel : Channel τ) (woken : Option τ) {phase : Phase} (hphase : task ∈ users ∨ phase = .idle) :
    ∀ other ∉ users, (exchange.advance channel woken task phase).phase other = .idle := by
  intro other hother
  -- waking a task does not start an operation
  have hwake : wakeIn exchange.phase woken other = .idle := by
    cases woken with
    | none => exact hout other hother
    | some woken =>
        by_cases heq : other = woken
        · subst heq
          rw [wakeIn_some, Function.update_self, hout other hother]
          rfl
        · rw [wakeIn_some, Function.update_of_ne heq]
          exact hout other hother
  by_cases htask : other = task
  · subst htask
    exact (advance_phase_self ..).trans (hphase.resolve_left hother)
  · exact (Function.update_of_ne htask ..).trans hwake

/-! Who is counted after a task has changed its phase. -/

theorem counted_update_of_eq (counted : Phase → Bool) {phase : τ → Phase} {task : τ}
    {new : Phase} (heq : counted (phase task) = counted new) (other : τ) :
    counted (phase other) = true ↔ counted (Function.update phase task new other) = true := by
  by_cases hother : other = task
  · subst hother
    rw [Function.update_self, heq]
  · rw [Function.update_of_ne hother]

theorem counted_update_of_true (counted : Phase → Bool) (phase : τ → Phase) (task : τ)
    {new : Phase} (hnew : counted new = true) (other : τ) :
    counted (phase other) = true ∨ other = task ↔
      counted (Function.update phase task new other) = true := by
  by_cases hother : other = task
  · subst hother
    simp [hnew]
  · simp [hother]

theorem counted_update_of_false (counted : Phase → Bool) (phase : τ → Phase) (task : τ)
    {new : Phase} (hnew : counted new = false) (other : τ) :
    counted (phase other) = true ∧ other ≠ task ↔
      counted (Function.update phase task new other) = true := by
  by_cases hother : other = task
  · subst hother
    simp [hnew]
  · simp [hother]

theorem counted_wakeIn_of_eq (counted : Phase → Bool) {phase : τ → Phase} {woken : Option τ}
    (heq : ∀ task, woken = some task → counted (phase task) = counted (phase task).wake)
    (other : τ) :
    counted (phase other) = true ↔ counted (wakeIn phase woken other) = true := by
  cases woken with
  | none => rfl
  | some woken => exact counted_update_of_eq counted (heq woken rfl) other

theorem counted_wakeIn_of_false (counted : Phase → Bool) (phase : τ → Phase)
    (woken : Option τ) (hwake : ∀ phase : Phase, counted phase.wake = false) (other : τ) :
    counted (phase other) = true ∧ woken ≠ some other ↔
      counted (wakeIn phase woken other) = true := by
  cases woken with
  | none => simp
  | some woken =>
      refine Iff.trans (and_congr_right fun _ => ?_)
        (counted_update_of_false counted phase woken (hwake (phase woken)) other)
      rw [ne_eq, ne_eq, Option.some.injEq, eq_comm]

/-- Of two actions of a task in a row, the first of which wakes nobody, only the
last decides about its phase. -/
theorem advance_advance (exchange : Exchange τ) (first second : Channel τ) (woken : Option τ)
    (task : τ) (between phase : Phase) :
    (exchange.advance first none task between).advance second woken task phase =
      exchange.advance second woken task phase := by
  unfold advance
  congr 1
  funext other
  by_cases hother : other = task
  · subst hother
    simp only [Function.update_self]
  · -- the phases of the other tasks change once
    cases woken with
    | none => simp only [wakeIn_none, Function.update_of_ne hother]
    | some woken =>
        by_cases hwoken : other = woken
        · subst hwoken
          simp only [wakeIn_none, wakeIn_some, Function.update_of_ne hother,
            Function.update_self]
        · simp only [wakeIn_none, wakeIn_some, Function.update_of_ne hother,
            Function.update_of_ne hwoken]

theorem advance_advance_none (exchange : Exchange τ) (first second : Channel τ)
    (woken : Option τ) (task : τ) (between phase : Phase) :
    (exchange.advance first woken task between).advance second none task phase =
      exchange.advance second woken task phase := by
  simp only [advance, wakeIn_none, Function.update_idem]

end Perform

/-! ## Counting tasks by phase -/

section Tally

variable [Fintype τ]

/-- The number of tasks whose phase is counted. -/
def tally (counted : Phase → Bool) (phase : τ → Phase) : ℕ :=
  (Finset.univ.filter fun task => counted (phase task)).card

/-- The senders that wait for a slot. -/
def parkedSenders (exchange : Exchange τ) : ℕ := tally Phase.isParkedSend exchange.phase

/-- The senders that have been woken and have not finished. -/
def wokenSenders (exchange : Exchange τ) : ℕ := tally Phase.isWokenSend exchange.phase

/-- The receivers that wait for a value. -/
def parkedReceivers (exchange : Exchange τ) : ℕ := tally Phase.isParkedReceive exchange.phase

/-- The receivers that have been woken and have not finished. -/
def wokenReceivers (exchange : Exchange τ) : ℕ := tally Phase.isWokenReceive exchange.phase

theorem tally_eq_sum (counted : Phase → Bool) (phase : τ → Phase) :
    tally counted phase = ∑ task, (counted (phase task)).toNat := by
  rw [tally, Finset.card_filter]
  refine Finset.sum_congr rfl fun task _ => ?_
  cases counted (phase task) <;> rfl

theorem tally_pos {counted : Phase → Bool} {phase : τ → Phase} (task : τ)
    (htask : counted (phase task) = true) : 0 < tally counted phase :=
  Finset.card_pos.mpr ⟨task, by simpa using htask⟩

/-- No task is in two phases at once, so the tallies do not exceed the number of
tasks that are ever engaged. -/
theorem tally_add_le {users : Finset τ} {phase : τ → Phase}
    (hidle : ∀ task ∉ users, phase task = .idle) :
    tally Phase.isParkedSend phase + tally Phase.isWokenSend phase +
        tally Phase.isParkedReceive phase + tally Phase.isWokenReceive phase ≤
      users.card := by
  simp only [tally_eq_sum, ← Finset.sum_add_distrib]
  rw [← Finset.sum_subset (Finset.subset_univ users) fun task _ hout => by simp [hidle task hout],
    Finset.card_eq_sum_ones]
  refine Finset.sum_le_sum fun task _ => ?_
  cases phase task <;> exact Nat.le_of_ble_eq_true rfl

variable [DecidableEq τ]

/-- A task leaves the tally with its old phase and joins it with the new one. -/
theorem tally_update (counted : Phase → Bool) (phase : τ → Phase) (task : τ) (new : Phase) :
    tally counted (Function.update phase task new) + (counted (phase task)).toNat =
      tally counted phase + (counted new).toNat := by
  have hcomp : ∀ other, (counted (Function.update phase task new other)).toNat =
      Function.update (fun other => (counted (phase other)).toNat) task (counted new).toNat other := by
    intro other
    by_cases hother : other = task
    · subst hother
      simp only [Function.update_self]
    · simp only [Function.update_of_ne hother]
  -- of the sum over all tasks, only the term of `task` changes
  simp only [tally_eq_sum, hcomp]
  rw [Finset.sum_update_of_mem (Finset.mem_univ task), Finset.sdiff_singleton_eq_erase,
    ← Finset.add_sum_erase _ _ (Finset.mem_univ task)]
  omega

/-- An idle task leaves room in the count of all tasks. -/
theorem tally_add_lt {users : Finset τ} {phase : τ → Phase} {task : τ}
    (hout : ∀ other ∉ users, phase other = .idle) (huser : task ∈ users)
    (hidle : phase task = .idle) :
    tally Phase.isParkedSend phase + tally Phase.isWokenSend phase +
        tally Phase.isParkedReceive phase + tally Phase.isWokenReceive phase <
      users.card := by
  -- were the task parked, it would be counted as well
  have hparked : ∀ other ∉ users, Function.update phase task .parkedReceive other = .idle := by
    intro other hother
    rw [Function.update_of_ne (ne_of_mem_of_not_mem huser hother).symm]
    exact hout other hother
  have hle := tally_add_le hparked
  have hps := tally_update Phase.isParkedSend phase task .parkedReceive
  have hws := tally_update Phase.isWokenSend phase task .parkedReceive
  have hpr := tally_update Phase.isParkedReceive phase task .parkedReceive
  have hwr := tally_update Phase.isWokenReceive phase task .parkedReceive
  simp [hidle] at hps hws hpr hwr
  omega

theorem tally_advance_none (counted : Phase → Bool) (exchange : Exchange τ)
    (channel : Channel τ) (task : τ) (phase : Phase) :
    tally counted (exchange.advance channel none task phase).phase +
        (counted (exchange.phase task)).toNat =
      tally counted exchange.phase + (counted phase).toNat :=
  tally_update counted exchange.phase task phase

theorem tally_advance_some (counted : Phase → Bool) (exchange : Exchange τ)
    (channel : Channel τ) {woken task : τ} (hne : woken ≠ task) (phase : Phase) :
    tally counted (exchange.advance channel (some woken) task phase).phase +
        (counted (exchange.phase task)).toNat + (counted (exchange.phase woken)).toNat =
      tally counted exchange.phase + (counted phase).toNat +
        (counted (exchange.phase woken).wake).toNat := by
  have hwake := tally_update counted exchange.phase woken (exchange.phase woken).wake
  have hphase := tally_update counted (wakeIn exchange.phase (some woken)) task phase
  -- waking one task and changing the phase of another are two updates
  have hsame : wakeIn exchange.phase (some woken) task = exchange.phase task :=
    wakeIn_of_ne fun heq => hne (Option.some.inj heq)
  rw [hsame] at hphase
  simp only [advance, wakeIn_some] at hphase ⊢
  omega

/-- Being woken does not change a tally that counts a woken task as a parked one. -/
theorem tally_advance_of_wake (counted : Phase → Bool)
    (hwake : ∀ phase : Phase, counted phase.wake = counted phase) (exchange : Exchange τ)
    (channel : Channel τ) (woken : Option τ) (task : τ) (phase : Phase) :
    tally counted (exchange.advance channel woken task phase).phase +
        (counted (exchange.phase task)).toNat =
      tally counted exchange.phase + (counted phase).toNat := by
  have hsame : ∀ other,
      counted (wakeIn exchange.phase woken other) = counted (exchange.phase other) := by
    intro other
    rw [Bool.eq_iff_iff, ← counted_wakeIn_of_eq counted fun _ _ => (hwake _).symm]
  have hphase := tally_update counted (wakeIn exchange.phase woken) task phase
  rw [hsame task] at hphase
  simp only [tally, hsame] at hphase ⊢
  exact hphase

end Tally

end Exchange

end NodeGrid

import NodeGrid.Proofs.Channel.Withdrawal

/-!
# Refused withdrawals

A receive that waits can be taken back while a slot is free to be retracted.  While a
receiver waits, every buffered value is promised to another one, so that the count of
slots is that of the capacity and of the parked receivers less the senders; it is not
positive exactly when the woken senders hold them all
(`Sound.cancelReceive_eq_none_iff`).

A refused receiver is then sure to be served.  Each woken sender ends its send with a
signal, and each signal moves whoever waits for a value one place forward
(`waits_of_serve`).  There are at least as many woken senders as receivers in line, so
when all of them have finished, everybody who stood in line has been woken or has left it
(`Course.isRelieved`).
-/

namespace NodeGrid

/-! ## Places in a line -/

section Places

variable {α : Type} [DecidableEq α] {first other task : α} {line : List α}

/-- Whoever is not the first in line moves forward when the first one leaves. -/
theorem idxOf_tail (hmem : task ∈ line) (hfirst : line.head? ≠ some task) :
    task ∈ line.tail ∧ line.tail.idxOf task + 1 = line.idxOf task := by
  cases line with
  | nil => cases hmem
  | cons first rest =>
      have hne : first ≠ task := fun heq => hfirst (congrArg some heq)
      exact ⟨List.mem_of_ne_of_mem hne.symm hmem, (List.idxOf_cons_ne rest hne).symm⟩

/-- Nobody moves backward when somebody else leaves. -/
theorem idxOf_erase_le (hne : other ≠ task) (line : List α) :
    (line.erase other).idxOf task ≤ line.idxOf task := by
  induction line with
  | nil => exact le_rfl
  | cons first rest ih =>
      by_cases hother : first = other
      · subst hother
        rw [List.erase_cons_head, List.idxOf_cons_ne rest hne]
        exact Nat.le_succ _
      · rw [List.erase_cons_tail (by simpa using hother)]
        by_cases htask : first = task
        · subst htask
          rw [List.idxOf_cons_self]
          exact Nat.zero_le _
        · rw [List.idxOf_cons_ne _ htask, List.idxOf_cons_ne _ htask]
          exact Nat.succ_le_succ ih

end Places

namespace Exchange

variable {τ : Type}

/-- The task that ends a blocked send. -/
def Action.finisher? : Action τ → Option τ
  | .finishSend task _ => some task
  | _ => none

/-- The tasks that end their blocked sends. -/
def finishers (records : List (Record τ)) : List τ :=
  records.filterMap fun record => record.action.finisher?

theorem finishers_cons (record : Record τ) (records : List (Record τ)) :
    finishers (record :: records) = record.action.finisher?.toList ++ finishers records := by
  cases hfinisher : record.action.finisher? <;> simp [finishers, hfinisher]

/-- A receiver that waited has been woken, or has taken its receive back. -/
def IsRelieved (task : τ) (records : List (Record τ)) : Prop :=
  ∃ record ∈ records, record.woken = some task ∨
    record.action = .cancelReceive task ∧ record.reply = .withdrawn

variable [DecidableEq τ] {exchange last : Exchange τ} {action : Action τ} {reply : Reply}
  {woken : Option τ} {task : τ} {channel next : Channel τ} {records : List (Record τ)}

/-- Whoever waits for a value, and is not woken and does not leave, is moved forward by every
send that ends, and never backward. -/
theorem waits_of_serve (hserve : serve channel action = .ok (reply, woken, next))
    (hmem : task ∈ channel.filledSlots.waiters) (hwoken : woken ≠ some task)
    (hstays : ¬ (action = .cancelReceive task ∧ reply = .withdrawn)) :
    task ∈ next.filledSlots.waiters ∧
      next.filledSlots.waiters.idxOf task + action.finisher?.toList.length ≤
        channel.filledSlots.waiters.idxOf task := by
  cases action with
  | send sender value =>
      -- a send that is served at once wakes the first in line, which is not the task
      rcases hwait : channel.emptySlots.wait sender with ⟨answer, slots⟩
      simp only [serve, Channel.send, hwait] at hserve
      cases answer with
      | granted =>
          cases hserve
          obtain ⟨hlater, hplace⟩ := idxOf_tail hmem hwoken
          exact ⟨hlater, (Nat.le_succ _).trans hplace.le⟩
      | suspended =>
          cases hserve
          exact ⟨hmem, le_rfl⟩
  | finishSend sender value =>
      cases hserve
      obtain ⟨hlater, hplace⟩ := idxOf_tail hmem hwoken
      exact ⟨hlater, hplace.le⟩
  | receive receiver =>
      -- a receiver that comes later takes a value or lines up at the end
      obtain ⟨⟨status, woken, received⟩, hreceive, hpair⟩ := bind_eq_ok.mp hserve
      cases hpair
      rcases hwait : channel.filledSlots.wait receiver with ⟨answer, slots⟩
      simp only [Channel.receive, hwait] at hreceive
      cases answer with
      | granted =>
          obtain ⟨⟨value, taken⟩, htake, hpair⟩ := bind_eq_ok.mp hreceive
          cases hpair
          obtain ⟨buffer, -, rfl⟩ := Channel.take_eq_ok_iff.mp htake
          simp only [Semaphore.waiters_of_granted hwait]
          exact ⟨hmem, le_rfl⟩
      | suspended =>
          cases hreceive
          have hline := Semaphore.waiters_of_suspended hwait
          simp only [hline]
          exact ⟨List.mem_append_left _ hmem, (List.idxOf_append_of_mem hmem).le⟩
  | finishReceive receiver =>
      obtain ⟨⟨value, taken⟩, htake, hpair⟩ := bind_eq_ok.mp hserve
      cases hpair
      obtain ⟨buffer, -, rfl⟩ := Channel.take_eq_ok_iff.mp htake
      exact ⟨hmem, le_rfl⟩
  | cancelSend sender =>
      -- senders stand in the other line
      cases hcancel : channel.cancelSend sender with
      | none =>
          simp only [serve, hcancel] at hserve
          cases hserve
          exact ⟨hmem, le_rfl⟩
      | some rest =>
          simp only [serve, hcancel] at hserve
          cases hserve
          obtain ⟨slots, -, rfl⟩ := Option.map_eq_some_iff.mp hcancel
          exact ⟨hmem, le_rfl⟩
  | cancelReceive receiver =>
      cases hcancel : channel.cancelReceive receiver with
      | none =>
          simp only [serve, hcancel] at hserve
          cases hserve
          exact ⟨hmem, le_rfl⟩
      | some rest =>
          simp only [serve, hcancel] at hserve
          cases hserve
          obtain ⟨-, line, hline, rfl⟩ := Channel.cancelReceive_eq_some_iff.mp hcancel
          -- another receiver leaves, and those behind it move up
          have hne : receiver ≠ task := fun heq => hstays ⟨congrArg _ heq, rfl⟩
          simp only [(Semaphore.waiters_cancel hline).2]
          exact ⟨(List.mem_erase_of_ne hne.symm).mpr hmem, idxOf_erase_le hne _⟩

/-- Nothing changes when an operation is not taken back. -/
theorem eq_of_refused (hperform : exchange.perform action = .ok (.refused, last)) :
    last = exchange := by
  obtain ⟨woken, channel, hserve, rfl⟩ := perform_eq_ok_iff.mp hperform
  obtain ⟨task, rfl | rfl⟩ := cancels_of_serve hserve (Or.inr rfl)
  · obtain ⟨_, -, hreply, -⟩ | ⟨-, -, heq⟩ := perform_cancelSend hperform
    · cases hreply
    · exact heq
  · obtain ⟨_, -, hreply, -⟩ | ⟨-, -, heq⟩ := perform_cancelReceive hperform
    · cases hreply
    · exact heq

/-! ## Along a course -/

/-- As long as a receiver is not relieved, it has as many others left in front of it as it had,
less one for each send that has ended. -/
theorem Course.waits (hcourse : Course exchange records last)
    (hmem : task ∈ exchange.channel.filledSlots.waiters) (hnot : ¬ IsRelieved task records) :
    task ∈ last.channel.filledSlots.waiters ∧
      last.channel.filledSlots.waiters.idxOf task + (finishers records).length ≤
        exchange.channel.filledSlots.waiters.idxOf task := by
  induction hcourse with
  | nil => exact ⟨hmem, le_rfl⟩
  | @cons exchange last action reply woken channel rest hallowed hserve hrest ih =>
      -- neither this action nor a later one relieves the task
      have hwoken : woken ≠ some task := fun heq => hnot ⟨_, List.mem_cons_self, Or.inl heq⟩
      have hstays : ¬ (action = .cancelReceive task ∧ reply = .withdrawn) :=
        fun hleaves => hnot ⟨_, List.mem_cons_self, Or.inr hleaves⟩
      have hlater : ¬ IsRelieved task rest := fun ⟨record, hrecord, hrelieved⟩ =>
        hnot ⟨record, List.mem_cons_of_mem _ hrecord, hrelieved⟩
      obtain ⟨hstill, hstep⟩ := waits_of_serve hserve hmem hwoken hstays
      obtain ⟨hlast, hrun⟩ := ih hstill hlater
      refine ⟨hlast, ?_⟩
      simp only [after, advance_channel] at hrun
      rw [finishers_cons, List.length_append]
      dsimp only
      omega

section Counts

variable [Fintype τ] {users : Finset τ} {capacity : ℕ} {events : List (Event τ)}

/-- When as many sends end as receivers stood in line, all of these have been relieved. -/
theorem Course.isRelieved (hsound : exchange.Sound users)
    (hparked : exchange.phase task = .parkedReceive)
    (henough : exchange.parkedReceivers ≤ exchange.wokenSenders)
    (hcourse : Course exchange records last)
    (hfinished : ∀ sender value, exchange.phase sender = .wokenSend value →
      sender ∈ finishers records) :
    IsRelieved task records := by
  -- otherwise more sends end than there are places in the line
  by_contra hnot
  have hmem : task ∈ exchange.channel.filledSlots.waiters :=
    (hsound.lines.receivers.mem_iff task).mpr (by simp [hparked])
  obtain ⟨-, hforward⟩ := hcourse.waits hmem hnot
  have hline : exchange.channel.filledSlots.waiting = exchange.parkedReceivers :=
    hsound.lines.receivers.waiting_eq_tally
  have hplace : exchange.channel.filledSlots.waiters.idxOf task <
      exchange.channel.filledSlots.waiters.length := List.idxOf_lt_length_of_mem hmem
  -- every woken sender is among those that finish
  have hcount : exchange.wokenSenders ≤ (finishers records).length := by
    refine (Finset.card_le_card fun sender hsender => ?_).trans (List.toFinset_card_le _)
    obtain ⟨value, hphase⟩ := Phase.isWokenSend_iff.mp (Finset.mem_filter.mp hsender).2
    exact List.mem_toFinset.mpr (hfinished sender value hphase)
  simp only [Semaphore.waiting] at hline
  omega

/-! ## Refusals -/

/-- When a channel of the given capacity refuses to take an operation back, and what comes of
it. -/
structure Refusals (capacity : ℕ) (exchange : Exchange τ) : Prop where
  /-- A parked receiver is refused exactly while woken senders hold every slot. -/
  receive_refused_iff : ∀ task, exchange.phase task = .parkedReceive →
    (exchange.channel.cancelReceive task = none ↔
      exchange.wokenSenders = capacity + exchange.parkedReceivers)
  /-- Once a receiver has been refused and those senders have ended their sends, every receiver
  that was parked with it has been woken or has been taken back. -/
  relieved : ∀ refused, exchange.phase refused = .parkedReceive →
    exchange.channel.cancelReceive refused = none →
    ∀ records last, Course exchange records last →
      (∀ sender value, exchange.phase sender = .wokenSend value → sender ∈ finishers records) →
      ∀ task, exchange.phase task = .parkedReceive → IsRelieved task records
  /-- A send is taken back exactly while its task is parked. -/
  send_withdrawn_iff : ∀ task, (exchange.channel.cancelSend task).isSome ↔
    ∃ value, exchange.phase task = .parkedSend value
  /-- Nothing changes when an operation is not taken back. -/
  unchanged : ∀ action next, exchange.perform action = .ok (.refused, next) → next = exchange

theorem Sound.isSome_cancelSend_iff (hsound : exchange.Sound users) :
    (exchange.channel.cancelSend task).isSome ↔ ∃ value, exchange.phase task = .parkedSend value := by
  rw [Channel.cancelSend, Option.isSome_map, Option.isSome_iff_ne_none, ne_eq,
    hsound.lines.senders.cancel_eq_none_iff, not_not, Phase.isParkedSend_iff]

/-- Whoever cannot take a receive back is going to be served: the senders that are on the way
have a value for everybody in line. -/
theorem Run.refusals (hroom : capacity + Fintype.card τ ≤ 2 ^ 63 - 1)
    (hrun : Run capacity events exchange) : Refusals capacity exchange := by
  have hsound := hrun.sound hroom
  have hcapacity := hrun.capacity_eq
  have hiff : ∀ task, exchange.phase task = .parkedReceive →
      (exchange.channel.cancelReceive task = none ↔
        exchange.wokenSenders = capacity + exchange.parkedReceivers) := fun task hparked =>
    hcapacity ▸ hsound.cancelReceive_eq_none_iff hparked
  constructor
  case receive_refused_iff => exact hiff
  case relieved =>
    intro refused hrefused hnone records last hcourse hfinished task hparked
    have henough := (hiff refused hrefused).mp hnone
    exact hcourse.isRelieved hsound hparked (by omega) hfinished
  case send_withdrawn_iff => exact fun task => hsound.isSome_cancelSend_iff
  case unchanged => exact fun action next => eq_of_refused

/-- Two receivers have woken the two senders of a channel without slots, and neither can leave
before it gets its value. -/
theorem Run.refusals_rendezvous :
    ∃ exchange : Exchange (Fin 4),
      0 + Fintype.card (Fin 4) ≤ 2 ^ 63 - 1 ∧
      Run 0 [(.send 0 5, .blocked), (.send 1 6, .blocked), (.receive 2, .blocked),
        (.receive 3, .blocked)] exchange ∧
      exchange.phase 2 = .parkedReceive ∧ exchange.channel.cancelReceive 2 = none ∧
      Refusals 0 exchange := by
  have hstart : Run 0 [] (ofCapacity 0 : Exchange (Fin 4)) := .start
  have hfirst : Run 0 ([] ++ [(.send (0 : Fin 4) 5, .blocked)]) _ := hstart.act rfl rfl
  have hsecond : Run 0 ([(.send (0 : Fin 4) 5, .blocked)] ++ [(.send 1 6, .blocked)]) _ :=
    hfirst.act rfl rfl
  have hthird : Run 0 ([(.send (0 : Fin 4) 5, .blocked), (.send 1 6, .blocked)] ++
      [(.receive 2, .blocked)]) _ := hsecond.act rfl rfl
  have hfourth : Run 0 ([(.send (0 : Fin 4) 5, .blocked), (.send 1 6, .blocked),
      (.receive 2, .blocked)] ++ [(.receive 3, .blocked)]) _ := hthird.act rfl rfl
  exact ⟨_, by decide, hfourth, rfl, rfl, Run.refusals (by decide) hfourth⟩

end Counts

end Exchange

end NodeGrid

import NodeGrid.Proofs.Channel.Course
import NodeGrid.Proofs.Fabric.Calls

/-!
# One send at a time

A channel hands out values in the order in which they were put into its buffer, which need
not be the order in which the sends were issued: of two senders that were woken, the second
may be the first to go on.  If no send is issued while another one is outstanding, the two
orders are the same (`SerialRun.fifo`), whatever the receivers do.

The calls of send can be read off the events.  At any moment they are the sends that have
completed, and after them the one that is outstanding (`Serial`).  This is kept by every
action: those of receivers do not change which sends there are, and being woken does not
change what a sender is sending.
-/

namespace NodeGrid

/-- The value that a task is in the middle of sending. -/
def Phase.sent? : Phase → Option Int64
  | .parkedSend value | .wokenSend value => some value
  | _ => none

@[simp] theorem Phase.sent?_wake (phase : Phase) : phase.wake.sent? = phase.sent? := by
  cases phase <;> rfl

namespace Exchange

variable {τ : Type}

/-- What an event means for the sends of a channel. -/
def sendChange? : Event τ → Option Change
  | (.send _ value, .delivered) => some (.serves (some value) value)
  | (.send _ value, .blocked) => some (.opens (some value))
  | (.finishSend _ value, _) => some (.ends value)
  | (.cancelSend _, .withdrawn) => some .withdraws
  | _ => none

section Issued

variable [DecidableEq τ]

/-- The sends that were not withdrawn, in the order in which they were issued. -/
def sendCalls (events : List (Event τ)) : List (Call τ) :=
  events.foldl (fun calls event =>
    ((sendChange? event).map (·.record event.1.task calls)).getD calls) []

/-- The values of the sends that were not withdrawn, in the order in which they were issued. -/
def issued (events : List (Event τ)) : List Int64 := (sendCalls events).filterMap Call.issued

theorem sendCalls_concat (events : List (Event τ)) (event : Event τ) :
    sendCalls (events ++ [event]) =
      ((sendChange? event).map (·.record event.1.task (sendCalls events))).getD
        (sendCalls events) := by
  rw [sendCalls, List.foldl_append]
  rfl

/-- The runs in which a send is issued only when no other one is outstanding. -/
inductive SerialRun (capacity : ℕ) : List (Event τ) → Exchange τ → Prop where
  | start : SerialRun capacity [] (ofCapacity capacity)
  | act {events : List (Event τ)} {exchange next : Exchange τ} {action : Action τ}
      {reply : Reply} (hrun : SerialRun capacity events exchange)
      (hallowed : exchange.Allows action)
      (hserial : ∀ task value, action = .send task value →
        ∀ other, (exchange.phase other).sent? = none)
      (hperform : exchange.perform action = .ok (reply, next)) :
      SerialRun capacity (events ++ [(action, reply)]) next

variable {capacity : ℕ} {events : List (Event τ)} {exchange next : Exchange τ}
  {action : Action τ} {reply : Reply} {task : τ} {value : Int64}

theorem SerialRun.run (hrun : SerialRun capacity events exchange) :
    Run capacity events exchange := by
  induction hrun with
  | start => exact .start
  | act hrun hallowed hserial hperform ih => exact ih.act hallowed hperform

/-! ## The outstanding send -/

/-- The call of a task that is in the middle of sending a value. -/
def opened : τ × Int64 → Call τ
  | (task, value) => ⟨some task, some value, none⟩

/-- The sends are those that have completed and the one that is outstanding. -/
structure Serial (events : List (Event τ)) (exchange : Exchange τ)
    (outstanding : Option (τ × Int64)) : Prop where
  calls_eq : sendCalls events =
    (delivered events).map .sent ++ (outstanding.map opened).toList
  outstanding_iff : ∀ task value,
    outstanding = some (task, value) ↔ (exchange.phase task).sent? = some value

variable {outstanding : Option (τ × Int64)}

/-- An action changes only what its own task is sending. -/
theorem sent?_advance (channel : Channel τ) (woken : Option τ) (phase : Phase) (other : τ) :
    ((exchange.advance channel woken task phase).phase other).sent? =
      if other = task then phase.sent? else (exchange.phase other).sent? := by
  by_cases hother : other = task
  · subst hother
    rw [advance_phase_self, if_pos rfl]
  · have hwake : (wakeIn exchange.phase woken other).sent? = (exchange.phase other).sent? := by
      by_cases hwoken : woken = some other
      · subst hwoken
        rw [wakeIn_some, Function.update_self, Phase.sent?_wake]
      · rw [wakeIn_of_ne hwoken]
    rw [if_neg hother, ← hwake]
    exact congrArg Phase.sent? (Function.update_of_ne hother ..)

/-- Which sends there are does not change unless one is issued, ends or is withdrawn. -/
theorem Serial.pass (hserial : Serial events exchange outstanding) {event : Event τ}
    (hchange : sendChange? event = none) (hput : put? event = none)
    (hsent : ∀ task, (next.phase task).sent? = (exchange.phase task).sent?) :
    Serial (events ++ [event]) next outstanding where
  calls_eq := by
    rw [sendCalls_concat, delivered_concat, hchange, hput]
    simpa using hserial.calls_eq
  outstanding_iff task value := by
    rw [hsent task]
    exact hserial.outstanding_iff task value

theorem Serial.pass_advance (hserial : Serial events exchange outstanding) {event : Event τ}
    (hchange : sendChange? event = none) (hput : put? event = none) {channel : Channel τ}
    {woken : Option τ} {phase : Phase} (hphase : phase.sent? = none)
    (hnone : (exchange.phase task).sent? = none) :
    Serial (events ++ [event]) (exchange.advance channel woken task phase) outstanding := by
  refine hserial.pass hchange hput fun other => ?_
  rw [sent?_advance]
  by_cases hother : other = task
  · subst hother
    rw [if_pos rfl, hphase, hnone]
  · rw [if_neg hother]

/-- A send that is issued on its own is the last one, and the only one that is outstanding. -/
theorem Serial.issue (hserial : Serial events exchange none) {status : SendStatus}
    {channel : Channel τ} {woken : Option τ} :
    Serial (events ++ [(.send task value, .ofSend status)])
      (exchange.advance channel woken task (sendPhase value status))
      (if status = .blocked then some (task, value) else none) := by
  -- no task had a send outstanding before
  have hnone : ∀ other, (exchange.phase other).sent? = none := by
    intro other
    rw [Option.eq_none_iff_forall_ne_some]
    intro sent hsent
    cases (hserial.outstanding_iff other sent).mpr hsent
  have hcalls := hserial.calls_eq
  constructor
  case calls_eq =>
    rw [sendCalls_concat, delivered_concat, hcalls]
    cases status <;> simp [sendChange?, Reply.ofSend, Change.record, put?, opened, Call.sent]
  case outstanding_iff =>
    intro other sent
    rw [sent?_advance, hnone other]
    cases status with
    | delivered => simp [sendPhase, Phase.sent?]
    | blocked =>
        by_cases hother : other = task
        · subst hother
          simp [sendPhase, Phase.sent?]
        · simp [hother, Ne.symm hother]

/-- No send is outstanding after the one that was has come to its end. -/
theorem Serial.close (hserial : Serial events exchange (some (task, value))) {event : Event τ}
    {channel : Channel τ} {woken : Option τ}
    (hcalls : sendCalls (events ++ [event]) = (delivered (events ++ [event])).map .sent) :
    Serial (events ++ [event]) (exchange.advance channel woken task .idle) none where
  calls_eq := by rw [hcalls, Option.map_none, Option.toList_none, List.append_nil]
  outstanding_iff := by
    intro other sent
    rw [sent?_advance]
    by_cases hother : other = task
    · simp [hother, Phase.sent?]
    · have hnot : (exchange.phase other).sent? ≠ some sent := by
        intro hsent
        have hsame := (hserial.outstanding_iff other sent).mpr hsent
        simp only [Option.some.injEq, Prod.mk.injEq] at hsame
        exact hother hsame.1.symm
      simp [hother, hnot]

theorem exists_serial_of_perform (hserial : Serial events exchange outstanding)
    (hallowed : exchange.Allows action)
    (hnone : ∀ task value, action = .send task value →
      ∀ other, (exchange.phase other).sent? = none)
    (hperform : exchange.perform action = .ok (reply, next)) :
    ∃ outstanding, Serial (events ++ [(action, reply)]) next outstanding := by
  cases action with
  | send task value =>
      obtain ⟨status, woken, channel, -, rfl, rfl⟩ := perform_send hperform
      -- no other send is outstanding when this one is issued
      obtain rfl : outstanding = none := by
        rw [Option.eq_none_iff_forall_ne_some]
        rintro ⟨other, sent⟩ hother
        rw [hserial.outstanding_iff, hnone task value rfl other] at hother
        cases hother
      exact ⟨_, hserial.issue⟩
  | finishSend task value =>
      cases hperform
      have hwoken : exchange.phase task = .wokenSend value := hallowed
      -- the send that ends is the one that was outstanding
      obtain rfl : outstanding = some (task, value) :=
        (hserial.outstanding_iff task value).mpr (by rw [hwoken]; rfl)
      refine ⟨none, hserial.close ?_⟩
      rw [sendCalls_concat, delivered_concat, hserial.calls_eq]
      simp [sendChange?, Change.record, put?, opened, Call.sent, Call.close]
  | receive task =>
      -- receivers come and go without the sends being touched
      obtain ⟨status, woken, channel, -, rfl, rfl⟩ := perform_receive hperform
      have hidle : exchange.phase task = .idle := hallowed
      refine ⟨outstanding, hserial.pass_advance ?_ ?_ ?_ (by rw [hidle]; rfl)⟩
      all_goals cases status <;> rfl
  | finishReceive task =>
      obtain ⟨taken, channel, -, rfl, rfl⟩ := perform_finishReceive hperform
      have hwoken : exchange.phase task = .wokenReceive := hallowed
      exact ⟨outstanding, hserial.pass_advance rfl rfl rfl (by rw [hwoken]; rfl)⟩
  | cancelSend task =>
      obtain ⟨value, hphase⟩ := hallowed
      obtain rfl : outstanding = some (task, value) := by
        rw [hserial.outstanding_iff]
        rcases hphase with hphase | hphase <;> rw [hphase] <;> rfl
      rcases perform_cancelSend hperform with ⟨channel, -, rfl, rfl⟩ | ⟨-, rfl, rfl⟩
      · refine ⟨none, hserial.close ?_⟩
        rw [sendCalls_concat, delivered_concat, hserial.calls_eq]
        simp [sendChange?, Change.record, put?, opened, Call.sent, Call.close]
      · exact ⟨_, hserial.pass rfl rfl fun _ => rfl⟩
  | cancelReceive task =>
      rcases perform_cancelReceive hperform with ⟨channel, -, rfl, rfl⟩ | ⟨-, rfl, rfl⟩
      · refine ⟨outstanding, hserial.pass_advance rfl rfl rfl ?_⟩
        rcases hallowed with hphase | hphase <;> rw [hphase] <;> rfl
      · exact ⟨outstanding, hserial.pass rfl rfl fun _ => rfl⟩

theorem SerialRun.exists_serial (hrun : SerialRun capacity events exchange) :
    ∃ outstanding, Serial events exchange outstanding := by
  induction hrun with
  | start => exact ⟨none, ⟨rfl, fun task value => by simp [ofCapacity, Phase.sent?]⟩⟩
  | act hrun hallowed hserial hperform ih =>
      obtain ⟨outstanding, hserial'⟩ := ih
      exact exists_serial_of_perform hserial' hallowed hserial hperform

/-- With one send at a time, a channel is first in, first out: what has been received, what
lies in the buffer and what is being sent are together the values of all sends that were not
withdrawn, in the order in which they were issued.  And no action faults. -/
theorem SerialRun.fifo [Fintype τ] (hroom : capacity + Fintype.card τ ≤ 2 ^ 63 - 1)
    (hrun : SerialRun capacity events exchange) :
    (∃ outstanding : Option (τ × Int64),
        (∀ task value, outstanding = some (task, value) ↔
          exchange.phase task = .parkedSend value ∨ exchange.phase task = .wokenSend value) ∧
        received events ++ exchange.channel.buffer ++ (outstanding.map Prod.snd).toList =
          issued events) ∧
      ∀ action, exchange.Allows action →
        ∃ reply next, exchange.perform action = .ok (reply, next) := by
  obtain ⟨outstanding, hserial⟩ := hrun.exists_serial
  refine ⟨⟨outstanding, ?_, ?_⟩, ?_⟩
  · intro task value
    rw [hserial.outstanding_iff]
    cases exchange.phase task <;> simp [Phase.sent?]
  · -- what has been delivered is what was received and what is in the buffer
    rw [← hrun.run.delivered_eq, issued, hserial.calls_eq]
    cases outstanding <;> simp [opened, Call.sent, Function.comp_def]
  · intro action hallowed
    obtain ⟨reply, next, hperform, -⟩ := (hrun.run.sound hroom).perform hallowed
    exact ⟨reply, next, hperform⟩

/-- The second receiver overtakes the first one, which has been woken before it, and the sender
gives up once. -/
theorem SerialRun.fifo_overtaken :
    ∃ exchange : Exchange (Fin 3),
      0 + Fintype.card (Fin 3) ≤ 2 ^ 63 - 1 ∧
      SerialRun 0 [(.receive 1, .blocked), (.send 0 5, .delivered), (.receive 2, .blocked),
        (.send 0 6, .delivered), (.finishReceive 2, .received 5), (.send 0 7, .blocked),
        (.cancelSend 0, .withdrawn), (.send 0 8, .blocked)] exchange ∧
      exchange.phase 1 = .wokenReceive ∧
      [5] ++ exchange.channel.buffer ++ [8] = [5, 6, 8] := by
  -- the run, one action after the other
  have hstart : SerialRun 0 [] (ofCapacity 0 : Exchange (Fin 3)) := .start
  have hfirst := hstart.act (show Allows _ (.receive 1) from rfl) (fun _ _ heq => by cases heq) rfl
  have hfive := hfirst.act (show Allows _ (.send 0 5) from rfl) (fun _ _ _ => by decide) rfl
  have hsecond := hfive.act (show Allows _ (.receive 2) from rfl) (fun _ _ heq => by cases heq) rfl
  have hsix := hsecond.act (show Allows _ (.send 0 6) from rfl) (fun _ _ _ => by decide) rfl
  have htaken := hsix.act (show Allows _ (.finishReceive 2) from rfl)
    (fun _ _ heq => by cases heq) rfl
  have hseven := htaken.act (show Allows _ (.send 0 7) from rfl) (fun _ _ _ => by decide) rfl
  have hgiven := hseven.act (show Allows _ (.cancelSend 0) from ⟨7, Or.inl rfl⟩)
    (fun _ _ heq => by cases heq) rfl
  have height := hgiven.act (show Allows _ (.send 0 8) from rfl) (fun _ _ _ => by decide) rfl
  obtain ⟨⟨outstanding, hwho, hvalues⟩, -⟩ := height.fifo (by decide)
  obtain rfl : outstanding = some (0, 8) := (hwho 0 8).mpr (Or.inl rfl)
  exact ⟨_, by decide, height, rfl, hvalues⟩

end Issued

end Exchange

end NodeGrid

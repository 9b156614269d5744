import NodeGrid.Proofs.Fabric.Deeds

/-!
# Calls in the order in which they were issued

From a log one can tell which calls of send and of receive there were on a channel,
in the order in which they were issued, and how each of them ended.  A call that is
withdrawn is not counted.  A channel is first in, first out (`IsFifo`) if the first
receive obtains the value that the first send was issued with, the second that of the
second, and so on.  A send that has to wait keeps the value that it was issued with,
whatever it ends with later; that the two are the same is part of what is shown.

Calls that have not ended belong to tasks that stand in a line.  `InLine` says that
the calls are those that have ended followed by those of the line; it is kept if
calls end only at the front of the line (`InLine.ends`), or at once when nobody is
in line (`InLine.serves`).
-/

namespace NodeGrid

variable {τ : Type} {n : ℕ}

/-- A call of send or of receive. -/
structure Call (τ : Type) where
  /-- The task that waits for the end of the call; none once it has ended. -/
  waiting : Option τ
  /-- The value that the call was issued with; a receive is issued without one. -/
  issued : Option Int64
  /-- The value that went into the channel or came out of it when the call ended. -/
  passed : Option Int64
deriving DecidableEq

namespace Call

/-- The call with its end, at which the value is passed. -/
def close (call : Call τ) (value : Int64) : Call τ :=
  { call with waiting := none, passed := some value }

/-- A send that has ended with the value that it was issued with. -/
def sent (value : Int64) : Call τ := ⟨none, some value, some value⟩

/-- A receive that has ended. -/
def received (value : Int64) : Call τ := ⟨none, none, some value⟩

@[simp] theorem waiting_sent (value : Int64) : (sent value : Call τ).waiting = none := rfl

@[simp] theorem waiting_received (value : Int64) : (received value : Call τ).waiting = none := rfl

end Call

/-- What a deed means for calls of one kind on one channel. -/
inductive Change where
  /-- A call is issued, and its task has to wait. -/
  | opens (issued : Option Int64)
  /-- A call is issued and ends at once. -/
  | serves (issued : Option Int64) (value : Int64)
  /-- The call that the task waits with ends. -/
  | ends (value : Int64)
  /-- The call that the task waits with is withdrawn. -/
  | withdraws

/-- The calls after a change by the task. -/
def Change.record [DecidableEq τ] (task : τ) (calls : List (Call τ)) : Change → List (Call τ)
  | .opens issued => calls ++ [⟨some task, issued, none⟩]
  | .serves issued value => calls ++ [⟨none, issued, some value⟩]
  | .ends value => calls.map fun call =>
    if call.waiting = some task then call.close value else call
  | .withdraws => calls.filter fun call => call.waiting ≠ some task

namespace Deed

/-- What the deed means for the sends on channel `k`. -/
def sendChange? (k : Fin n) : Deed n → Option Change
  | .send j value .delivered => if j = k then some (.serves (some value) value) else none
  | .send j value .blocked => if j = k then some (.opens (some value)) else none
  | .finishSend j value => if j = k then some (.ends value) else none
  | .cancelSend j => if j = k then some .withdraws else none
  | .begin | .receive _ _ | .finishReceive _ _ | .cancelReceive _ => none

/-- What the deed means for the receives on channel `k`. -/
def receiveChange? (k : Fin n) : Deed n → Option Change
  | .receive j (.received value) => if j = k then some (.serves none value) else none
  | .receive j .blocked => if j = k then some (.opens none) else none
  | .finishReceive j value => if j = k then some (.ends value) else none
  | .cancelReceive j => if j = k then some .withdraws else none
  | .begin | .send _ _ _ | .finishSend _ _ | .cancelSend _ => none

section Changes

variable {k : Fin n} {value : Int64}

theorem sendChange?_delivered :
    (send k value .delivered).sendChange? k = some (.serves (some value) value) :=
  if_pos rfl

theorem sendChange?_blocked : (send k value .blocked).sendChange? k = some (.opens (some value)) :=
  if_pos rfl

theorem sendChange?_finishSend : (finishSend k value).sendChange? k = some (.ends value) := if_pos rfl

theorem sendChange?_cancelSend : (cancelSend k).sendChange? k = some .withdraws := if_pos rfl

theorem receiveChange?_received :
    (receive k (.received value)).receiveChange? k = some (.serves none value) := if_pos rfl

theorem receiveChange?_blocked : (receive k .blocked).receiveChange? k = some (.opens none) :=
  if_pos rfl

theorem receiveChange?_finishReceive :
    (finishReceive k value).receiveChange? k = some (.ends value) := if_pos rfl

theorem receiveChange?_cancelReceive : (cancelReceive k).receiveChange? k = some .withdraws :=
  if_pos rfl

end Changes

end Deed

section Calls

variable [DecidableEq τ]

/-- The calls that a log is left with, if deeds are read with `change?`. -/
def callsBy (change? : Deed n → Option Change) (log : Log τ n) : List (Call τ) :=
  log.foldl (fun calls (task, deed) => ((change? deed).map (·.record task calls)).getD calls) []

/-- The sends on channel `k` in the order in which they were issued. -/
def sendCalls (k : Fin n) (log : Log τ n) : List (Call τ) := callsBy (Deed.sendChange? k) log

/-- The receives on channel `k` in the order in which they were issued. -/
def receiveCalls (k : Fin n) (log : Log τ n) : List (Call τ) := callsBy (Deed.receiveChange? k) log

/-- Calls on channel `k` end in the order in which they were issued. -/
structure IsFifo (k : Fin n) (log : Log τ n) : Prop where
  /-- A receive that has ended has obtained the value that the send in its place was
  issued with. -/
  received : ∀ (index : ℕ) (call : Call τ) (value : Int64),
    (receiveCalls k log)[index]? = some call → call.passed = some value →
      ∃ send, (sendCalls k log)[index]? = some send ∧ send.issued = some value
  /-- A send that has ended has put the value into the channel that it was issued with. -/
  sent : ∀ call ∈ sendCalls k log, ∀ value, call.passed = some value → call.issued = some value

theorem callsBy_concat (change? : Deed n → Option Change) (log : Log τ n) (task : τ)
    (deed : Deed n) :
    callsBy change? (log ++ [(task, deed)]) =
      ((change? deed).map (·.record task (callsBy change? log))).getD (callsBy change? log) := by
  rw [callsBy, List.foldl_append]
  rfl

end Calls

/-! ## Tasks in line -/

/-- The calls are those that have ended and then those of the tasks in line. -/
def InLine (calls ended : List (Call τ)) (line : List τ) (call? : τ → Option (Call τ)) : Prop :=
  calls = ended ++ line.filterMap call?

section Line

variable {calls ended : List (Call τ)} {ready waiters later : List τ}
  {woken : Option τ} {call? : τ → Option (Call τ)} {task : τ}

theorem filterMap_toList_of_none (hwoken : ∀ other, woken = some other → call? other = none) :
    woken.toList.filterMap call? = [] := by
  cases woken with
  | none => rfl
  | some other => simp [hwoken other rfl]

/-- Calls carry the name of their task. -/
def Named (call? : τ → Option (Call τ)) : Prop :=
  ∀ task call, call? task = some call → call.waiting = some task

/-- The calls of a line are not those of a task that is not in it. -/
theorem waiting_of_mem_filterMap (hnamed : Named call?) {line : List τ} (hout : task ∉ line)
    {call : Call τ} (hcall : call ∈ line.filterMap call?) : call.waiting ≠ some task := by
  obtain ⟨other, hmem, hother⟩ := List.mem_filterMap.mp hcall
  rw [hnamed other call hother]
  exact fun heq => hout (Option.some.inj heq ▸ hmem)

variable [DecidableEq τ]

/-- A task that has no call can leave a line unnoticed. -/
theorem filterMap_erase_of_none (hnone : call? task = none) (line : List τ) :
    (line.erase task).filterMap call? = line.filterMap call? := by
  induction line with
  | nil => rfl
  | cons first rest ih =>
      by_cases hfirst : first = task
      · subst hfirst
        rw [List.erase_cons_head, List.filterMap_cons_none hnone]
      · rw [List.erase_cons_tail (by simpa using hfirst)]
        simp only [List.filterMap_cons, ih]

theorem filterMap_update_of_not_mem {line : List τ} (hout : task ∉ line)
    (new : Option (Call τ)) :
    line.filterMap (Function.update call? task new) = line.filterMap call? :=
  List.filterMap_congr fun _ hmem => Function.update_of_ne (ne_of_mem_of_not_mem hmem hout) _ _

/-- Who has no call comes and goes unnoticed, and whoever is woken keeps its place. -/
theorem InLine.pass (woken : Option τ) (hline : InLine calls ended (ready ++ waiters) call?)
    (htask : call? task = none)
    (hwoken : waiters = woken.toList ++ later ∨
      waiters = later ∧ ∀ other, woken = some other → call? other = none) :
    InLine calls ended (ready.erase task ++ woken.toList ++ later) call? := by
  rw [InLine, hline]
  simp only [List.filterMap_append, filterMap_erase_of_none htask, List.append_assoc]
  rcases hwoken with rfl | ⟨rfl, hnone⟩
  · rw [List.filterMap_append]
  · rw [filterMap_toList_of_none hnone, List.nil_append]

/-- A task that has to wait goes to the end of the line. -/
theorem InLine.opens (woken : Option τ) (hline : InLine calls ended (ready ++ waiters) call?)
    (hready : task ∉ ready) (hwaiters : task ∉ waiters)
    (hwoken : ∀ other, woken = some other → other ≠ task ∧ call? other = none)
    (issued : Option Int64) :
    InLine (calls ++ [⟨some task, issued, none⟩]) ended
      (ready.erase task ++ woken.toList ++ (waiters ++ [task]))
      (Function.update call? task (some ⟨some task, issued, none⟩)) := by
  have hout : task ∉ woken.toList := fun hmem => (hwoken task (Option.mem_toList.mp hmem)).1 rfl
  rw [InLine, hline, List.erase_of_not_mem hready]
  simp only [List.filterMap_append, filterMap_update_of_not_mem hready,
    filterMap_update_of_not_mem hout, filterMap_update_of_not_mem hwaiters,
    filterMap_toList_of_none fun other hother => (hwoken other hother).2]
  simp

/-- A call ends at once when nobody is in line. -/
theorem InLine.serves (hline : InLine calls ended (ready ++ waiters) call?)
    (hnobody : (ready ++ waiters).filterMap call? = []) (htask : call? task = none)
    (hwoken : ∀ other, woken = some other → call? other = none) (call : Call τ) :
    InLine (calls ++ [call]) (ended ++ [call]) (ready.erase task ++ woken.toList ++ waiters)
      call? := by
  have hpassed : InLine calls ended (ready.erase task ++ woken.toList ++ waiters) call? :=
    hline.pass woken htask (Or.inr ⟨rfl, hwoken⟩)
  rw [InLine, hnobody, List.append_nil] at hline
  rw [InLine, hline] at hpassed
  have hstill := List.append_cancel_left ((List.append_nil _).trans hpassed)
  rw [InLine, hline, ← hstill]
  simp

/-- A task that has been woken before all others ends its call. -/
theorem InLine.ends (woken : Option τ) (hnamed : Named call?)
    (hline : InLine calls ended (task :: ready ++ waiters) call?)
    (hended : ∀ call ∈ ended, call.waiting = none)
    (hready : task ∉ ready) (hwaiters : task ∉ waiters) {call : Call τ}
    (hcall : call? task = some call)
    (hwoken : ∀ other, woken = some other → other ≠ task ∧ call? other = none) (value : Int64) :
    InLine (Change.record task calls (.ends value)) (ended ++ [call.close value])
      ((task :: ready).erase task ++ woken.toList ++ waiters) (Function.update call? task none) := by
  have hout : task ∉ woken.toList := fun hmem => (hwoken task (Option.mem_toList.mp hmem)).1 rfl
  -- neither the calls that have ended nor those of the other tasks in line are touched
  have hover : ended.map (fun call => if call.waiting = some task then call.close value else call) =
      ended := by
    refine (List.map_congr_left fun other hmem => if_neg ?_).trans (List.map_id _)
    rw [hended other hmem]
    exact nofun
  have hothers : ∀ other ∈ (ready ++ waiters).filterMap call?, other.waiting ≠ some task :=
    fun other => waiting_of_mem_filterMap hnamed (by simp [hready, hwaiters])
  have hsame : ((ready ++ waiters).filterMap call?).map
      (fun call => if call.waiting = some task then call.close value else call) =
        (ready ++ waiters).filterMap call? := by
    refine (List.map_congr_left fun other hmem => if_neg (hothers other hmem)).trans ?_
    exact List.map_id _
  rw [InLine, hline, List.erase_cons_head, Change.record, List.map_append, List.cons_append,
    List.filterMap_cons_some hcall, List.map_cons, hover, hsame, if_pos (hnamed task call hcall)]
  simp only [List.filterMap_append, filterMap_update_of_not_mem hready,
    filterMap_update_of_not_mem hout, filterMap_update_of_not_mem hwaiters,
    filterMap_toList_of_none fun other hother => (hwoken other hother).2]
  simp

/-- A task that leaves the line withdraws its call. -/
theorem InLine.withdraws (hnamed : Named call?)
    (hline : InLine calls ended (ready ++ waiters) call?)
    (hended : ∀ call ∈ ended, call.waiting = none) (hready : task ∉ ready)
    (hnodup : waiters.Nodup) :
    InLine (Change.record task calls .withdraws) ended (ready.erase task ++ waiters.erase task)
      (Function.update call? task none) := by
  have hout : task ∉ waiters.erase task := hnodup.not_mem_erase
  -- to remove the call from the calls of a line is to remove the task from the line
  have hkept : ∀ line : List τ, (line.filterMap call?).filter (·.waiting ≠ some task) =
      (line.filter (· ≠ task)).filterMap call? := by
    intro line
    rw [List.filter_filterMap, List.filterMap_filter]
    refine List.filterMap_congr fun other _ => ?_
    cases hcall : call? other with
    | none => simp
    | some call => by_cases hother : other = task <;> simp [hnamed other call hcall, hother]
  -- calls that are over wait for nobody
  have hover : ended.filter (·.waiting ≠ some task) = ended := by
    rw [List.filter_eq_self]
    intro call hmem
    simp [hended call hmem]
  have hstay : ready.filter (· ≠ task) = ready := by
    rw [List.filter_eq_self]
    intro other hmem
    simpa using ne_of_mem_of_not_mem hmem hready
  have hleave : waiters.filter (· ≠ task) = waiters.erase task := by
    rw [hnodup.erase_eq_filter]
    refine List.filter_congr fun other _ => ?_
    by_cases hother : other = task <;> simp [hother]
  rw [InLine, hline, Change.record, List.filter_append, hover, hkept, List.filter_append,
    hstay, hleave, List.erase_of_not_mem hready]
  simp only [List.filterMap_append, filterMap_update_of_not_mem hready,
    filterMap_update_of_not_mem hout]

end Line

end NodeGrid

import NodeGrid.Proofs.Semaphore.Line

/-!
# First come, first served

A `Run` is any sequence of requests that a semaphore may be asked to serve, with the answers
it gave.  The events alone tell which waits were suspended, in the order in which they were
issued, and what has become of each of them (`waits`): a wait is ended by the first event
after it that wakes its task or takes it out of the line.

Of the waits that were not cancelled, those that were woken come first, and the others are
the line (`Orderly`).  Every request keeps this: a suspended wait is added behind all others,
a signal ends the first one that has not ended, and a cancellation drops one that has not
ended (`Orderly.perform`).  `Run.lawful` puts it together with what the count says.
-/

namespace NodeGrid

namespace Semaphore

variable {τ : Type}

/-! ## Requests and their answers -/

/-- What a semaphore can be asked for. -/
inductive Request (τ : Type) where
  | wait (task : τ)
  | signal
  | cancel (task : τ)
  | retract

/-- A request with the answer to it. -/
inductive Event (τ : Type) where
  | waited (task : τ) (answer : Acquire)
  | signalled (woken : Option τ)
  /-- The cancellation has succeeded if the task was found in the line. -/
  | cancelled (task : τ) (found : Bool)
  | retracted

namespace Event

/-- The request that was answered. -/
def request : Event τ → Request τ
  | .waited task _ => .wait task
  | .signalled _ => .signal
  | .cancelled task _ => .cancel task
  | .retracted => .retract

/-- Whether a task asks for a permit. -/
@[simp] def isWait : Event τ → Bool
  | .waited _ _ => true
  | _ => false

/-- Whether a permit is given back. -/
@[simp] def isSignal : Event τ → Bool
  | .signalled _ => true
  | _ => false

/-- Whether the event is a cancellation that has succeeded. -/
@[simp] def isCancellation : Event τ → Bool
  | .cancelled _ found => found
  | _ => false

/-- Whether a permit is taken back. -/
@[simp] def isRetraction : Event τ → Bool
  | .retracted => true
  | _ => false

/-- The task that the event puts into the line. -/
def suspended? : Event τ → Option τ
  | .waited task .suspended => some task
  | _ => none

theorem suspended?_eq_some_iff {event : Event τ} {task : τ} :
    event.suspended? = some task ↔ event = .waited task .suspended := by
  unfold suspended?
  split <;> simp_all

/-- The task that the event wakes. -/
def woken? : Event τ → Option τ
  | .signalled woken => woken
  | _ => none

end Event

/-- The tasks that were woken, in the order in which they were. -/
def wakes (events : List (Event τ)) : List τ := events.filterMap Event.woken?

theorem wakes_concat (events : List (Event τ)) (event : Event τ) :
    wakes (events ++ [event]) = wakes events ++ event.woken?.toList := by
  simp [wakes, List.filterMap_eq_flatMap_toList]

/-- What is left of the permits after the given events. -/
def balance (count : ℕ) (events : List (Event τ)) : ℤ :=
  count - events.countP Event.isWait + events.countP Event.isSignal +
    events.countP Event.isCancellation - events.countP Event.isRetraction

theorem balance_concat (count : ℕ) (events : List (Event τ)) (event : Event τ) :
    balance count (events ++ [event]) = balance count events - event.isWait.toNat +
      event.isSignal.toNat + event.isCancellation.toNat - event.isRetraction.toNat := by
  have hcount (counted : Event τ → Bool) : (events ++ [event]).countP counted =
      events.countP counted + (counted event).toNat := by
    cases hevent : counted event <;> simp [hevent]
  simp only [balance, hcount]
  omega

/-! ## What becomes of a wait -/

/-- How a suspended wait ends. -/
inductive Ending where
  | woken
  | cancelled
deriving DecidableEq

/-- A suspended wait. -/
structure Wait (τ : Type) where
  task : τ
  /-- None as long as the task waits. -/
  ending : Option Ending

namespace Wait

/-- A wait that has not ended. -/
def ongoing (task : τ) : Wait τ := ⟨task, none⟩

/-- A wait that a signal has ended. -/
def served (task : τ) : Wait τ := ⟨task, some .woken⟩

/-- Whether the wait has not been cancelled. -/
def isKept (wait : Wait τ) : Bool := wait.ending ≠ some .cancelled

theorem filter_isKept_served (tasks : List τ) :
    (tasks.map served).filter isKept = tasks.map served :=
  List.filter_eq_self.mpr <| List.forall_mem_map.mpr fun _ _ => rfl

theorem filter_isKept_ongoing (tasks : List τ) :
    (tasks.map ongoing).filter isKept = tasks.map ongoing :=
  List.filter_eq_self.mpr <| List.forall_mem_map.mpr fun _ _ => rfl

end Wait

section Waits

variable [DecidableEq τ]

/-- The ending that an event brings to a wait of the task. -/
def Event.ending? : Event τ → τ → Option Ending
  | .signalled woken, task => if woken = some task then some .woken else none
  | .cancelled other true, task => if other = task then some .cancelled else none
  | _, _ => none

/-- The suspended waits in the order in which they were issued.  The first later event that
ends one is its ending. -/
def waits : List (Event τ) → List (Wait τ)
  | [] => []
  | event :: later =>
    (event.suspended?.map fun task => ⟨task, later.findSome? (·.ending? task)⟩).toList ++
      waits later

/-- The tasks of the suspended waits that were not cancelled, in the order of the waits. -/
def standing (events : List (Event τ)) : List τ :=
  ((waits events).filter Wait.isKept).map Wait.task

/-- The tasks of the suspended waits with the given ending, in the order of the waits. -/
def endedBy (ending : Option Ending) (events : List (Event τ)) : List τ :=
  ((waits events).filter (·.ending = ending)).map Wait.task

/-- The tasks that still wait, longest wait first. -/
abbrev pending (events : List (Event τ)) : List τ := endedBy none events

variable {events : List (Event τ)} {event : Event τ} {task : τ}

/-- The wait after one more event. -/
def Wait.settle (event : Event τ) (wait : Wait τ) : Wait τ :=
  { wait with ending := wait.ending.or (event.ending? wait.task) }

theorem waits_concat (events : List (Event τ)) (event : Event τ) :
    waits (events ++ [event]) =
      (waits events).map (Wait.settle event) ++ event.suspended?.toList.map .ongoing := by
  induction events with
  | nil =>
      simp only [List.nil_append, waits, List.append_nil, List.map_nil]
      cases event.suspended? <;> rfl
  | cons first later ih =>
      rw [List.cons_append, waits, ih, waits, List.map_append, List.append_assoc]
      congr 1
      cases first.suspended? with
      | none => rfl
      | some task => simp [Wait.settle, List.findSome?_append]

/-- A cancelled wait stays cancelled. -/
theorem Wait.isKept_of_settle {wait : Wait τ} (hkept : (wait.settle event).isKept) :
    wait.isKept := by
  cases hending : wait.ending with
  | none => simp [isKept, hending]
  | some ending => simpa [isKept, settle, hending] using hkept

/-- Another event matters for the waits that were not cancelled only. -/
theorem kept_concat (events : List (Event τ)) (event : Event τ) :
    (waits (events ++ [event])).filter Wait.isKept =
      (((waits events).filter Wait.isKept).map (Wait.settle event)).filter Wait.isKept ++
        event.suspended?.toList.map .ongoing := by
  rw [waits_concat, List.filter_append, Wait.filter_isKept_ongoing, List.filter_map,
    List.filter_map, List.filter_filter]
  congr 2
  refine List.filter_congr fun wait _ => ?_
  cases hsettled : (wait.settle event).isKept with
  | false => simp [hsettled]
  | true => simp [hsettled, Wait.isKept_of_settle hsettled]

theorem endedBy_eq_of_ne {ending : Option Ending} (hending : ending ≠ some .cancelled) :
    endedBy ending events =
      (((waits events).filter Wait.isKept).filter (·.ending = ending)).map Wait.task := by
  rw [endedBy, List.filter_filter]
  congr 1
  refine List.filter_congr fun wait _ => ?_
  by_cases hwait : wait.ending = ending <;> simp [hwait, hending, Wait.isKept]

/-- What an event leaves of the waits of a line, once those it cancels are dropped. -/
def settled (event : Event τ) (line : List τ) : List (Wait τ) :=
  (line.map fun task => ⟨task, event.ending? task⟩).filter Wait.isKept

theorem settled_of_none {line : List τ} (hnone : ∀ task ∈ line, event.ending? task = none) :
    settled event line = line.map .ongoing := by
  have hline : (line.map fun task => ⟨task, event.ending? task⟩) = line.map Wait.ongoing :=
    List.map_congr_left fun task htask => congrArg (Wait.mk task) (hnone task htask)
  rw [settled, hline, Wait.filter_isKept_ongoing]

theorem settled_signalled {first : τ} {rest : List τ} (hnot : first ∉ rest) :
    settled (.signalled (some first)) (first :: rest) = .served first :: rest.map .ongoing := by
  have hrest : settled (.signalled (some first)) rest = rest.map .ongoing := by
    refine settled_of_none fun task htask => ?_
    have hne : first ≠ task := fun heq => hnot (heq ▸ htask)
    simp [Event.ending?, hne]
  rw [← hrest]
  simp [settled, Event.ending?, Wait.served, Wait.isKept]

theorem settled_cancelled {line : List τ} (hnodup : line.Nodup) :
    settled (.cancelled task true) line = (line.erase task).map .ongoing := by
  induction line with
  | nil => rfl
  | cons first rest ih =>
      rw [List.nodup_cons] at hnodup
      rcases eq_or_ne first task with rfl | hne
      -- nobody stands in line a second time
      · have hrest : settled (.cancelled first true) rest = rest.map .ongoing := by
          rw [ih hnodup.2, List.erase_of_not_mem hnodup.1]
        rw [List.erase_cons_head, ← hrest]
        simp [settled, Event.ending?, Wait.isKept]
      · rw [List.erase_cons_tail (by simpa using hne), List.map_cons, ← ih hnodup.2]
        simp [settled, Event.ending?, Wait.isKept, Wait.ongoing, hne.symm]

/-- Whoever is pending has waited, and was neither woken nor cancelled since. -/
theorem mem_pending (hmem : task ∈ pending events) :
    ∃ earlier later, events = earlier ++ .waited task .suspended :: later ∧
      .signalled (some task) ∉ later ∧ .cancelled task true ∉ later := by
  obtain ⟨wait, hwait, rfl⟩ := List.mem_map.mp hmem
  obtain ⟨hwaits, hending⟩ := List.mem_filter.mp hwait
  replace hending : wait.ending = none := of_decide_eq_true hending
  clear hmem hwait
  -- the wait is the first of the events, or it is among the later ones
  induction events with
  | nil => cases hwaits
  | cons first later ih =>
      rw [waits, List.mem_append] at hwaits
      rcases hwaits with hfirst | hlater
      · obtain ⟨task, hsuspended, rfl⟩ := Option.map_eq_some_iff.mp (Option.mem_toList.mp hfirst)
        -- nothing that came later has ended the wait
        have hnone : ∀ event ∈ later, event.ending? task = none :=
          List.findSome?_eq_none_iff.mp hending
        refine ⟨[], later, ?_, ?_, ?_⟩
        · rw [Event.suspended?_eq_some_iff.mp hsuspended, List.nil_append]
        · exact fun hwoken => absurd (hnone _ hwoken) (by simp [Event.ending?])
        · exact fun hcancelled => absurd (hnone _ hcancelled) (by simp [Event.ending?])
      · obtain ⟨earlier, later, rfl, hends⟩ := ih hlater
        exact ⟨first :: earlier, later, rfl, hends⟩

end Waits

/-! ## Runs -/

section Runs

variable [DecidableEq τ]

/-- Serves a request. -/
def perform (semaphore : Semaphore τ) : Request τ → Event τ × Semaphore τ
  | .wait task =>
    let (answer, next) := semaphore.wait task
    (.waited task answer, next)
  | .signal =>
    let (woken, next) := semaphore.signal
    (.signalled woken, next)
  | .cancel task =>
    match semaphore.cancel task with
    | some next => (.cancelled task true, next)
    | none => (.cancelled task false, semaphore)
  | .retract => (.retracted, semaphore.retract)

theorem request_perform (semaphore : Semaphore τ) (request : Request τ) :
    (semaphore.perform request).1.request = request := by
  cases request with
  | wait task => rfl
  | signal => rfl
  | cancel task =>
      cases hcancel : semaphore.cancel task <;> simp [perform, hcancel, Event.request]
  | retract => rfl

/-- What the callers of a semaphore respect: a task does not wait again while it waits, only
a free permit is retracted, and the count does not leave the machine word. -/
def Allows (semaphore : Semaphore τ) (events : List (Event τ)) : Request τ → Prop
  | .wait task => task ∉ pending events ∧ -2 ^ 63 < semaphore.permits.toInt
  | .signal => semaphore.permits.toInt < 2 ^ 63 - 1
  | .cancel _ => True
  | .retract => 0 < semaphore.permits.toInt

/-- The runs of a semaphore with so many permits: any requests that it allows. -/
inductive Run (count : ℕ) : List (Event τ) → Semaphore τ → Prop where
  | start : Run count [] (ofCount count)
  | act {events : List (Event τ)} {semaphore : Semaphore τ} (request : Request τ)
      (hrun : Run count events semaphore) (hallowed : semaphore.Allows events request) :
      Run count (events ++ [(semaphore.perform request).1]) (semaphore.perform request).2

variable {count : ℕ} {events earlier later : List (Event τ)} {event : Event τ}
  {semaphore : Semaphore τ} {request : Request τ} {task : τ}

/-- What happened first in a run is a run, and what came next was allowed there. -/
theorem Run.split (hrun : Run count (earlier ++ event :: later) semaphore) :
    ∃ before, Run count earlier before ∧ before.Allows earlier event.request ∧
      (before.perform event.request).1 = event := by
  generalize hevents : earlier ++ event :: later = events at hrun
  induction hrun generalizing later with
  | start => simp at hevents
  | @act events semaphore request hrun hallowed ih =>
      rcases List.eq_nil_or_concat' later with rfl | ⟨later, last, rfl⟩
      · obtain ⟨rfl, hevent⟩ := List.append_inj' hevents rfl
        rw [List.singleton_inj] at hevent
        rw [hevent, request_perform]
        exact ⟨semaphore, hrun, hallowed, rfl⟩
      · rw [← List.cons_append, ← List.append_assoc] at hevents
        exact ih (List.append_inj' hevents rfl).1

/-! ## The line of a run -/

/-- The count is what is left of the permits, and the waits that were not cancelled are those
that were woken, in the order in which they were, and then those of the line. -/
structure Orderly (count : ℕ) (events : List (Event τ)) (semaphore : Semaphore τ) : Prop where
  permits_eq : semaphore.permits.toInt = balance count events
  serves : semaphore.Serves (· ∈ semaphore.waiters)
  kept_eq : (waits events).filter Wait.isKept =
    (wakes events).map .served ++ semaphore.waiters.map .ongoing

section Orderly

variable (horderly : Orderly count events semaphore)
include horderly

theorem Orderly.standing_eq : standing events = wakes events ++ semaphore.waiters := by
  rw [standing, horderly.kept_eq]
  simp [Wait.served, Wait.ongoing, Function.comp_def]

theorem Orderly.woken_eq : endedBy (some .woken) events = wakes events := by
  rw [endedBy_eq_of_ne (by decide), horderly.kept_eq]
  simp [Wait.served, Wait.ongoing, Function.comp_def, List.filter_map]

theorem Orderly.pending_eq : pending events = semaphore.waiters := by
  rw [pending, endedBy_eq_of_ne (by decide), horderly.kept_eq]
  simp [Wait.served, Wait.ongoing, Function.comp_def, List.filter_map]

/-- Another event settles waits of the line, and may add one to them. -/
theorem Orderly.kept_concat (event : Event τ) :
    (waits (events ++ [event])).filter Wait.isKept = (wakes events).map .served ++
      (settled event semaphore.waiters ++ event.suspended?.toList.map .ongoing) := by
  have hserved : ((wakes events).map .served).map (Wait.settle event) =
      (wakes events).map .served := by
    rw [List.map_map]
    rfl
  have hline : ((semaphore.waiters.map .ongoing).map (Wait.settle event)).filter Wait.isKept =
      settled event semaphore.waiters := by
    rw [List.map_map]
    rfl
  rw [Semaphore.kept_concat, horderly.kept_eq, List.map_append, hserved, List.filter_append,
    Wait.filter_isKept_served, hline, List.append_assoc]

/-- A free permit is taken. -/
theorem Orderly.take (hfree : 0 < semaphore.permits.toInt)
    (hevent : event = .retracted ∨ ∃ task, event = .waited task .granted) :
    Orderly count (events ++ [event]) { semaphore with permits := semaphore.permits - 1 } where
  permits_eq := by
    have hleft := toInt_sub_one semaphore.permits (by omega)
    rw [balance_concat, ← horderly.permits_eq]
    rcases hevent with rfl | ⟨task, rfl⟩ <;> simp [hleft]
  serves := horderly.serves.take hfree
  kept_eq := by
    rw [horderly.kept_concat, wakes_concat]
    rcases hevent with rfl | ⟨task, rfl⟩ <;> rw [settled_of_none fun _ _ => rfl] <;>
      simp [Event.suspended?, Event.woken?]

/-- A task that is not in line is put behind the others. -/
theorem Orderly.lineUp (hidle : task ∉ semaphore.waiters)
    (hlow : -2 ^ 63 < semaphore.permits.toInt) (hnone : semaphore.permits.toInt ≤ 0) :
    Orderly count (events ++ [.waited task .suspended])
      { permits := semaphore.permits - 1, waiters := semaphore.waiters ++ [task] } where
  permits_eq := by
    have hleft := toInt_sub_one semaphore.permits hlow
    rw [balance_concat, ← horderly.permits_eq]
    simp [hleft]
  serves := (horderly.serves.lineUp hidle hlow hnone).self
  kept_eq := by
    rw [horderly.kept_concat, wakes_concat, settled_of_none fun _ _ => rfl]
    simp [Event.suspended?, Event.woken?]

/-- The first in line is woken, and nobody else. -/
theorem Orderly.signal (hhigh : semaphore.permits.toInt < 2 ^ 63 - 1) :
    Orderly count (events ++ [.signalled semaphore.signal.1]) semaphore.signal.2 where
  permits_eq := by
    have hnext := toInt_add_one semaphore.permits hhigh
    rw [balance_concat, ← horderly.permits_eq]
    simp [hnext]
  serves := (horderly.serves.signal hhigh).self
  kept_eq := by
    have hnodup := horderly.serves.nodup
    rw [horderly.kept_concat, wakes_concat]
    cases hwaiters : semaphore.waiters with
    | nil => simp [Semaphore.signal, hwaiters, settled, Event.suspended?, Event.woken?]
    | cons first rest =>
        rw [hwaiters, List.nodup_cons] at hnodup
        simp only [Semaphore.signal, hwaiters, List.head?_cons, List.tail_cons]
        rw [settled_signalled hnodup.1]
        simp [Event.suspended?, Event.woken?]

/-- A task that is found leaves the line, and nobody else does. -/
theorem Orderly.cancel {next : Semaphore τ} (hcancel : semaphore.cancel task = some next) :
    Orderly count (events ++ [.cancelled task true]) next := by
  have hlength := horderly.serves.waiting_eq
  have hrest := waiting_cancel hcancel
  -- somebody waits, so that the count is negative
  have hhigh : semaphore.permits.toInt < 2 ^ 63 - 1 := by omega
  constructor
  case permits_eq =>
    have hnext := toInt_add_one semaphore.permits hhigh
    rw [balance_concat, ← horderly.permits_eq, permits_cancel hcancel]
    simp [hnext]
  case serves => exact (horderly.serves.cancel hhigh hcancel).self
  case kept_eq =>
    rw [horderly.kept_concat, wakes_concat, settled_cancelled horderly.serves.nodup,
      (waiters_cancel hcancel).2]
    simp [Event.suspended?, Event.woken?]

/-- A cancellation that finds nobody changes nothing. -/
theorem Orderly.refuse (task : τ) :
    Orderly count (events ++ [.cancelled task false]) semaphore where
  permits_eq := by
    rw [balance_concat, ← horderly.permits_eq]
    simp
  serves := horderly.serves
  kept_eq := by
    rw [horderly.kept_concat, wakes_concat, settled_of_none fun _ _ => rfl]
    simp [Event.suspended?, Event.woken?]

theorem Orderly.perform (hallowed : semaphore.Allows events request) :
    Orderly count (events ++ [(semaphore.perform request).1]) (semaphore.perform request).2 := by
  cases request with
  | wait task =>
      obtain ⟨hidle, hlow⟩ := hallowed
      rw [horderly.pending_eq] at hidle
      -- a wait takes a permit if there is one, and lines up if not
      by_cases hfree : 0 < semaphore.permits.toInt
      · simp only [Semaphore.perform, wait_of_pos hfree]
        exact horderly.take hfree (Or.inr ⟨task, rfl⟩)
      · simp only [Semaphore.perform, wait_of_nonpos hlow (not_lt.mp hfree)]
        exact horderly.lineUp hidle hlow (not_lt.mp hfree)
  | signal => exact horderly.signal hallowed
  | cancel task =>
      cases hcancel : semaphore.cancel task with
      | none =>
          simp only [Semaphore.perform, hcancel]
          exact horderly.refuse task
      | some next =>
          simp only [Semaphore.perform, hcancel]
          exact horderly.cancel hcancel
  | retract => exact horderly.take hallowed (Or.inl rfl)

end Orderly

theorem orderly_ofCount (hcount : count < 2 ^ 63) :
    Orderly count [] (ofCount count : Semaphore τ) where
  permits_eq := by simp [balance, ofCount, Int64.toInt_ofNat_of_lt hcount]
  serves := (serves_ofCount hcount).self
  kept_eq := rfl

theorem Run.orderly (hcount : count < 2 ^ 63) (hrun : Run count events semaphore) :
    Orderly count events semaphore := by
  induction hrun with
  | start => exact orderly_ofCount hcount
  | act request hrun hallowed ih => exact ih.perform hallowed

/-! ## The law of a semaphore -/

/-- What holds of a semaphore with so many permits after the given events. -/
structure Lawful (count : ℕ) (events : List (Event τ)) (semaphore : Semaphore τ) : Prop where
  permits_eq : semaphore.permits.toInt = count - events.countP Event.isWait +
    events.countP Event.isSignal + events.countP Event.isCancellation -
      events.countP Event.isRetraction
  waiting_eq : (semaphore.waiting : ℤ) = max 0 (-semaphore.permits.toInt)
  /-- A task is suspended exactly if no permit is free when it asks for one. -/
  suspended_iff : ∀ earlier task answer later, events = earlier ++ .waited task answer :: later →
    ∃ before, Run count earlier before ∧ answer = (before.wait task).1 ∧
      (answer = .suspended ↔ before.permits.toInt ≤ 0)
  /-- The tasks that were woken and those that wait are those of the suspended waits, in the
  order in which these were issued, without the ones that were cancelled. -/
  woken_append_waiters : wakes events ++ semaphore.waiters = standing events
  /-- Each wait that a signal has ended has been woken for once, in its turn, and nobody was
  woken otherwise. -/
  woken_eq : wakes events = endedBy (some .woken) events
  waiters_eq : semaphore.waiters = pending events
  /-- A signal wakes the task that has waited longest, if anybody waits. -/
  signalled_eq : ∀ earlier woken later, events = earlier ++ .signalled woken :: later →
    woken = (pending earlier).head?
  /-- A cancellation succeeds exactly if its task waits. -/
  found_iff : ∀ earlier task found later, events = earlier ++ .cancelled task found :: later →
    (found = true ↔ task ∈ pending earlier)
  /-- Whoever is woken has been suspended, and was neither woken nor cancelled since. -/
  woken_once : ∀ earlier task later, events = earlier ++ .signalled (some task) :: later →
    ∃ before between, earlier = before ++ .waited task .suspended :: between ∧
      .signalled (some task) ∉ between ∧ .cancelled task true ∉ between

theorem Run.eq_head?_pending (hcount : count < 2 ^ 63) {woken : Option τ}
    (hrun : Run count (earlier ++ .signalled woken :: later) semaphore) :
    woken = (pending earlier).head? := by
  obtain ⟨before, hearlier, -, hevent⟩ := hrun.split
  rw [(hearlier.orderly hcount).pending_eq]
  cases hevent
  rfl

theorem Run.eq_true_iff_mem_pending (hcount : count < 2 ^ 63) {found : Bool}
    (hrun : Run count (earlier ++ .cancelled task found :: later) semaphore) :
    found = true ↔ task ∈ pending earlier := by
  obtain ⟨before, hearlier, -, hevent⟩ := hrun.split
  have horderly := hearlier.orderly hcount
  rw [horderly.pending_eq]
  cases hcancel : before.cancel task with
  | none =>
      simp only [Event.request, perform, hcancel] at hevent
      cases hevent
      simp [horderly.serves.cancel_eq_none_iff.mp hcancel]
  | some next =>
      simp only [Event.request, perform, hcancel] at hevent
      cases hevent
      simp [(waiters_cancel hcancel).1]

/-- The law of a semaphore holds after every run of it. -/
theorem Run.lawful (hcount : count < 2 ^ 63) (hrun : Run count events semaphore) :
    Lawful count events semaphore := by
  have horderly := hrun.orderly hcount
  constructor
  case permits_eq => exact horderly.permits_eq
  case waiting_eq => rw [horderly.serves.waiting_eq, max_comm]
  case suspended_iff =>
    rintro earlier task answer later rfl
    -- the run up to the wait decides what the wait is answered
    obtain ⟨before, hearlier, hallowed, hevent⟩ := hrun.split
    cases hevent
    exact ⟨before, hearlier, rfl, wait_eq_suspended_iff hallowed.2⟩
  case woken_append_waiters => exact horderly.standing_eq.symm
  case woken_eq => exact horderly.woken_eq.symm
  case waiters_eq => exact horderly.pending_eq.symm
  case signalled_eq =>
    rintro earlier woken later rfl
    exact hrun.eq_head?_pending hcount
  case found_iff =>
    rintro earlier task found later rfl
    exact hrun.eq_true_iff_mem_pending hcount
  case woken_once =>
    rintro earlier task later rfl
    exact mem_pending (List.mem_of_head? (hrun.eq_head?_pending hcount).symm)

/-- One permit, and four tasks: the second one takes its wait back and waits again, so that
the third one is woken before it. -/
theorem Run.lawful_waiting_again :
    ∃ semaphore : Semaphore ℕ,
      1 < 2 ^ 63 ∧
      Run 1 [.waited 0 .granted, .waited 1 .suspended, .waited 2 .suspended, .cancelled 1 true,
        .waited 1 .suspended, .signalled (some 2), .cancelled 2 false, .signalled (some 1),
        .signalled none, .retracted, .waited 3 .suspended] semaphore ∧
      semaphore = ⟨-1, [3]⟩ ∧
      Lawful 1 [.waited 0 .granted, .waited 1 .suspended, .waited 2 .suspended, .cancelled 1 true,
        .waited 1 .suspended, .signalled (some 2), .cancelled 2 false, .signalled (some 1),
        .signalled none, .retracted, .waited 3 .suspended] semaphore := by
  -- the run, one request after the other
  have hgranted : Run 1 ([] ++ [.waited 0 .granted]) _ :=
    Run.start.act (.wait 0) ⟨by decide, by decide⟩
  have hsecond := hgranted.act (.wait 1) ⟨by decide, by decide⟩
  have hthird := hsecond.act (.wait 2) ⟨by decide, by decide⟩
  have hcancelled := hthird.act (.cancel 1) trivial
  have hagain := hcancelled.act (.wait 1) ⟨by decide, by decide⟩
  have hwoken := hagain.act .signal (show (_ : ℤ) < _ by decide)
  have hrefused := hwoken.act (.cancel 2) trivial
  have hlast := hrefused.act .signal (show (_ : ℤ) < _ by decide)
  have hbanked := hlast.act .signal (show (_ : ℤ) < _ by decide)
  have hretracted := hbanked.act .retract (show (_ : ℤ) < _ by decide)
  have hrun := hretracted.act (.wait 3) ⟨by decide, by decide⟩
  exact ⟨_, by decide, hrun, by decide, Run.lawful (by decide) hrun⟩

end Runs

end Semaphore

end NodeGrid

import NodeGrid.Network
import NodeGrid.Proofs.Participant.Soundness

/-!
# Networks that do not fault

A network is sound if its members are, its fabric is sound for what the members
are engaged in, and a step is outstanding exactly for the engaged members.  Every
move of a network replaces one member and the fabric (`Sound.put`), and all of its
loops are made of such moves, so that a tick keeps the network sound.

Ticks are followed with a log of the members whose steps they begin
(`tickLogged`, which is `tick` otherwise).  A step only ever begins on a member
that is sound and has nothing outstanding.
-/

namespace NodeGrid.Network

variable {m n : ℕ}

/-- What the task of each member is engaged in. -/
def engaged (network : Network m n) (task : Fin m) : Option (Engagement n) :=
  (network.member task).engagement

/-- The members are sound, the channels know about their engagements, and a step is outstanding
exactly where a member is engaged. -/
structure Sound (network : Network m n) (users : Fin n → Finset (Fin m)) : Prop where
  members : ∀ task, (network.member task).Sound (task ∈ users ·)
  fabric : network.fabric.Sound users network.engaged
  inFlight : ∀ task, network.isPending task = (network.engaged task).isSome

/-- Every member may use every channel. -/
def everyone : Fin n → Finset (Fin m) := fun _ => Finset.univ

/-- A member that is ready to begin a step. -/
def AtRest (member : Participant n) (allowed : Fin n → Prop) : Prop :=
  member.Sound allowed ∧ member.engagement = none

variable {network : Network m n} {users : Fin n → Finset (Fin m)} {task : Fin m}
  {member : Participant n} {allowed : Fin n → Prop} {inFlight : Bool} {fabric : Fabric (Fin m) n}

/-! ## Replacing a member -/

@[simp] theorem member_put_self : (network.put task member inFlight fabric).member task = member := by
  simp [member_eq_getElem, put]

theorem member_put_of_ne {other : Fin m} (hne : other ≠ task) :
    (network.put task member inFlight fabric).member other = network.member other :=
  Vector.getElem_set_ne task.isLt other.isLt fun heq => hne (Fin.ext heq.symm)

@[simp] theorem isPending_put_self :
    (network.put task member inFlight fabric).isPending task = inFlight := by
  simp [isPending_eq_getElem, put]

theorem isPending_put_of_ne {other : Fin m} (hne : other ≠ task) :
    (network.put task member inFlight fabric).isPending other = network.isPending other :=
  Vector.getElem_set_ne task.isLt other.isLt fun heq => hne (Fin.ext heq.symm)

theorem engaged_put :
    (network.put task member inFlight fabric).engaged =
      Function.update network.engaged task member.engagement := by
  funext other
  by_cases hother : other = task
  · subst hother
    simp [engaged]
  · rw [Function.update_of_ne hother, engaged, member_put_of_ne hother, engaged]

theorem Sound.put (hsound : network.Sound users) (hmember : member.Sound (task ∈ users ·))
    (hfabric : fabric.Sound users (Function.update network.engaged task member.engagement))
    (hinFlight : inFlight = member.engagement.isSome) :
    (network.put task member inFlight fabric).Sound users where
  members := by
    intro other
    by_cases hother : other = task
    · subst hother
      rwa [member_put_self]
    · rw [member_put_of_ne hother]
      exact hsound.members other
  fabric := by rwa [engaged_put]
  inFlight := by
    intro other
    by_cases hother : other = task
    · subst hother
      rw [isPending_put_self, engaged_put, Function.update_self, hinFlight]
    · rw [isPending_put_of_ne hother, engaged_put, Function.update_of_ne hother]
      exact hsound.inFlight other

/-- The fabric does not notice that an idle task is engaged in nothing. -/
theorem Sound.fabric_update (hsound : network.Sound users) (task : Fin m) :
    network.fabric.Sound users (Function.update network.engaged task (network.engaged task)) := by
  rw [Function.update_eq_self]
  exact hsound.fabric

/-- A new program leaves the network sound if it uses only channels that its node
is meant to use. -/
theorem Sound.load (hsound : network.Sound users) {source : String}
    (huses : ∀ instruction ∈ ((network.member task).load source).program,
      ∀ port ∈ instruction.ports, ∀ k, (network.member task).ports port = some k → task ∈ users k) :
    (network.load task source).Sound users := by
  obtain ⟨hmember, hengagement⟩ := (hsound.members task).load huses
  have hput : network.load task source =
      network.put task ((network.member task).load source) (network.isPending task)
        network.fabric := by
    simp [Network.load, Network.put, isPending_eq_getElem]
  rw [hput]
  refine hsound.put hmember ?_ ?_
  · rw [hengagement]
    exact hsound.fabric_update task
  · rw [hengagement]
    exact hsound.inFlight task

/-! ## Beginning steps -/

theorem Sound.begin (hsound : network.Sound users) (hidle : network.engaged task = none) :
    Yields (network.begin task) fun (_, next) => next.Sound users := by
  have hfabric := hsound.fabric_update task
  rw [hidle] at hfabric
  refine ((hsound.members task).step hidle hfabric).bind ?_
  rintro ⟨progress, member, fabric⟩ ⟨hmember, hserved⟩
  cases progress with
  | settled =>
      refine yields_ok.mpr (hsound.put hmember hserved.fabric ?_)
      simpa using hserved.pending_iff
  | pending =>
      refine yields_ok.mpr (hsound.put hmember hserved.fabric ?_)
      simpa using hserved.pending_iff

/-- The network as a visit finds it when it begins a step of `task`; `none` if
the step of `task` goes on. -/
def release (network : Network m n) (task : Fin m) : Except Fault (Option (Network m n)) :=
  if network.isPending task then do
    match ← (network.member task).withdraw task network.fabric with
    | some (member, fabric) => return some (network.put task member false fabric)
    | none => return none
  else
    .ok (some network)

/-- A visit with the member whose step it begins, if any. -/
def visitLogged (network : Network m n) (task : Fin m) :
    Except Fault (List (Participant n) × ℕ × Network m n) := do
  match ← network.release task with
  | some released =>
    let (settled, next) ← released.begin task
    return ([released.member task], settled, next)
  | none => return ([], 0, network.put task (network.member task).stall true network.fabric)

/-- Visits in the given order, with the members whose steps they begin. -/
def visitAllLogged (network : Network m n) :
    List (Fin m) → Except Fault (List (Participant n) × ℕ × Network m n)
  | [] => .ok ([], 0, network)
  | task :: rest => do
    let (log, first, network) ← network.visitLogged task
    let (logs, others, network) ← network.visitAllLogged rest
    return (log ++ logs, first + others, network)

/-- A tick with the members whose steps it begins. -/
def tickLogged (network : Network m n) : Except Fault (List (Participant n) × ℕ × Network m n) :=
  match network.discipline with
  | .lockstep => do
    let (log, begun, network) ← network.visitAllLogged (List.finRange m)
    let (resumed, network) ← network.settle
    return (log, begun + resumed, network)
  | .firstSettled => do
    let (carried, network) ← network.resumeUpTo network.fabric.ready.length
    let (log, begun, network) ← network.visitAllLogged (List.finRange m)
    if carried + begun = 0 then do
      let (settled, network) ← network.settleFirst
      return (log, settled, network)
    else
      return (log, carried + begun, network)

/-! The log changes nothing else. -/

theorem map_visitLogged (network : Network m n) (task : Fin m) :
    (network.visitLogged task).map Prod.snd = network.visit task := by
  unfold visitLogged release visit
  by_cases hpending : network.isPending task = true
  · simp only [if_pos hpending]
    cases (network.member task).withdraw task network.fabric with
    | error broken => rfl
    | ok withdrawn =>
        cases withdrawn with
        | none => rfl
        | some outcome =>
            obtain ⟨member, fabric⟩ := outcome
            simp only [ok_bind, pure, Except.pure]
            cases (network.put task member false fabric).begin task <;> rfl
  · simp only [if_neg hpending, ok_bind]
    cases network.begin task <;> rfl

theorem map_visitAllLogged (network : Network m n) (tasks : List (Fin m)) :
    (network.visitAllLogged tasks).map Prod.snd = network.visitAll tasks := by
  induction tasks generalizing network with
  | nil => rfl
  | cons task rest ih =>
      rw [visitAllLogged, visitAll, ← map_visitLogged]
      cases network.visitLogged task with
      | error broken => rfl
      | ok outcome =>
          obtain ⟨log, first, next⟩ := outcome
          simp only [Except.map, ok_bind]
          rw [← ih next]
          cases next.visitAllLogged rest <;> rfl

theorem map_tickLogged (network : Network m n) :
    network.tickLogged.map Prod.snd = network.tick := by
  unfold tickLogged tick
  cases network.discipline with
  | lockstep =>
      rw [tickLockstep, ← map_visitAllLogged]
      cases network.visitAllLogged (List.finRange m) with
      | error broken => rfl
      | ok outcome =>
          obtain ⟨log, begun, next⟩ := outcome
          simp only [Except.map, ok_bind]
          cases next.settle <;> rfl
  | firstSettled =>
      simp only [tickFirstSettled]
      cases network.resumeUpTo network.fabric.ready.length with
      | error broken => rfl
      | ok outcome =>
          obtain ⟨carried, between⟩ := outcome
          simp only [ok_bind, ← map_visitAllLogged]
          cases between.visitAllLogged (List.finRange m) with
          | error broken => rfl
          | ok outcome =>
              obtain ⟨log, begun, next⟩ := outcome
              simp only [Except.map, ok_bind]
              -- only a tick that has settled nothing yet goes on
              by_cases hnone : carried + begun = 0
              · simp only [hnone, if_true]
                cases next.settleFirst <;> rfl
              · simp only [hnone, if_false]
                rfl

/-- What is known of an operation with a log is known without it. -/
theorem yields_map_snd {α β : Type} {result : Except Fault (α × β)} {post : β → Prop}
    (hyields : Yields result fun outcome => post outcome.2) :
    Yields (result.map Prod.snd) post := by
  obtain ⟨outcome, rfl, hpost⟩ := hyields
  exact ⟨outcome.2, rfl, hpost⟩

theorem Sound.release (hsound : network.Sound users) (task : Fin m) :
    Yields (network.release task) fun
      | some released => released.Sound users ∧ released.engaged task = none
      | none => network.isPending task = true := by
  unfold Network.release
  by_cases hpending : network.isPending task = true
  · rw [if_pos hpending]
    refine ((hsound.members task).withdraw hsound.fabric).bind ?_
    intro withdrawn hwithdrawn
    cases withdrawn with
    | none => exact yields_ok.mpr hpending
    | some outcome =>
        obtain ⟨member, fabric⟩ := outcome
        obtain ⟨hmember, hengagement, hfabric⟩ := hwithdrawn member fabric rfl
        refine yields_ok.mpr ⟨hsound.put hmember ?_ ?_, ?_⟩
        · rwa [hengagement]
        · rw [hengagement]
          rfl
        · rw [engaged_put, Function.update_self, hengagement]
  · -- what is not in flight is idle, by soundness
    rw [if_neg hpending]
    refine yields_ok.mpr ⟨hsound, ?_⟩
    rw [hsound.inFlight task] at hpending
    simpa using hpending

/-- A member whose step has been given up is ready to begin one. -/
theorem Sound.withdrawn (hsound : network.Sound users) (hpending : network.isPending task = true)
    (hwithdraw : (network.member task).withdraw task network.fabric = .ok (some (member, fabric))) :
    (network.put task member false fabric).Sound users ∧
      (network.put task member false fabric).engaged task = none := by
  have hrelease : network.release task = .ok (some (network.put task member false fabric)) := by
    rw [Network.release, if_pos hpending, hwithdraw]
    rfl
  exact (hsound.release task).of_ok hrelease

/-- A visit begins a step of a member at rest, or none. -/
theorem Sound.visitLogged (hsound : network.Sound users) (task : Fin m) :
    Yields (network.visitLogged task) fun (log, _, next) =>
      next.Sound users ∧ ∀ member ∈ log, ∃ allowed, AtRest member allowed := by
  refine (hsound.release task).bind ?_
  intro released hreleased
  cases released with
  -- the step goes on, and only a cycle is counted
  | none =>
      obtain ⟨hmember, hengagement⟩ := (hsound.members task).stall
      refine yields_ok.mpr ⟨hsound.put hmember ?_ ?_, by simp⟩
      · rw [hengagement]
        exact hsound.fabric_update task
      · rw [hengagement, ← engaged, ← hsound.inFlight task]
        exact hreleased.symm
  | some released =>
      obtain ⟨hnext, hidle⟩ := hreleased
      refine (hnext.begin hidle).bind ?_
      rintro ⟨settled, next⟩ hlast
      refine yields_ok.mpr ⟨hlast, ?_⟩
      simpa using ⟨_, hnext.members task, hidle⟩

theorem Sound.visit (hsound : network.Sound users) (task : Fin m) :
    Yields (network.visit task) fun (_, next) => next.Sound users := by
  rw [← map_visitLogged]
  exact yields_map_snd ((hsound.visitLogged task).mono fun _ houtcome => houtcome.1)

theorem Sound.visitAllLogged (hsound : network.Sound users) (tasks : List (Fin m)) :
    Yields (network.visitAllLogged tasks) fun (log, _, next) =>
      next.Sound users ∧ ∀ member ∈ log, ∃ allowed, AtRest member allowed := by
  induction tasks generalizing network with
  | nil => exact yields_ok.mpr ⟨hsound, by simp⟩
  | cons task rest ih =>
      refine (hsound.visitLogged task).bind ?_
      rintro ⟨log, first, between⟩ ⟨hbetween, hlog⟩
      refine (ih hbetween).bind ?_
      rintro ⟨logs, others, last⟩ ⟨hlast, hlogs⟩
      refine yields_ok.mpr ⟨hlast, ?_⟩
      intro member hmember
      rcases List.mem_append.mp hmember with hin | hin
      · exact hlog member hin
      · exact hlogs member hin

theorem Sound.visitAll (hsound : network.Sound users) (tasks : List (Fin m)) :
    Yields (network.visitAll tasks) fun (_, next) => next.Sound users := by
  rw [← map_visitAllLogged]
  exact yields_map_snd ((hsound.visitAllLogged tasks).mono fun _ houtcome => houtcome.1)

/-! ## Resuming tasks -/

/-- What it is to resume the first of the ready tasks.  Its step settles, or stays as it was. -/
theorem resumeNext_eq_some_iff {settled : ℕ} {next : Network m n} :
    network.resumeNext = .ok (some (settled, next)) ↔
      ∃ task ready progress member fabric, network.fabric.ready = task :: ready ∧
        (network.member task).resume task (network.fabric.withReady ready) =
          .ok (progress, member, fabric) ∧
        settled = (if progress = .settled then 1 else 0) ∧
        next = network.put task member (progress = .pending && network.isPending task) fabric := by
  unfold Network.resumeNext
  constructor
  · intro hresume
    cases hready : network.fabric.ready with
    | nil =>
        rw [hready] at hresume
        cases hresume
    | cons task ready =>
        rw [hready] at hresume
        obtain ⟨⟨progress, member, fabric⟩, hmember, hnext⟩ := bind_eq_ok.mp hresume
        refine ⟨task, ready, progress, member, fabric, rfl, hmember, ?_⟩
        cases progress with
        | settled =>
            cases hnext
            exact ⟨rfl, rfl⟩
        | pending =>
            -- a member that was not in flight stays out of flight
            cases hnext
            exact ⟨rfl, by simp⟩
  · rintro ⟨task, ready, progress, member, fabric, hready, hmember, rfl, rfl⟩
    rw [hready]
    simp only [hmember, ok_bind]
    cases progress with
    | settled => rfl
    | pending => simp [pure, Except.pure]

theorem Sound.resumeNext (hsound : network.Sound users) :
    Yields network.resumeNext fun resumed => ∀ settled next,
      resumed = some (settled, next) → next.Sound users := by
  unfold Network.resumeNext
  cases hready : network.fabric.ready with
  | nil => exact yields_ok.mpr (by simp)
  | cons task ready =>
      refine ((hsound.members task).resume hsound.fabric hready rfl).bind ?_
      rintro ⟨progress, member, fabric⟩ ⟨hmember, hserved⟩
      cases progress with
      | settled =>
          refine yields_ok.mpr fun settled next hsome => ?_
          cases hsome
          refine hsound.put hmember hserved.fabric ?_
          simpa using hserved.pending_iff
      | pending =>
          refine yields_ok.mpr fun settled next hsome => ?_
          cases hsome
          refine hsound.put hmember hserved.fabric ?_
          -- the flag stays as it is, and it is set because the task was ready
          rw [hsound.inFlight, hsound.fabric.engaged_of_ready task (by simp [hready])]
          simpa using hserved.pending_iff

theorem Sound.settle (hsound : network.Sound users) :
    Yields network.settle fun (_, next) => next.Sound users := by
  fun_induction Network.settle network with
  | case1 network broken hresume =>
      exact absurd hresume (hsound.resumeNext.ne_error broken)
  | case2 network hresume => exact yields_ok.mpr hsound
  | case3 network first next hresume hlt ih =>
      have hnext := hsound.resumeNext.of_ok hresume first next rfl
      refine (ih hnext).bind ?_
      rintro ⟨others, last⟩ hlast
      exact yields_ok.mpr hlast

theorem Sound.settleFirst (hsound : network.Sound users) :
    Yields network.settleFirst fun (_, next) => next.Sound users := by
  fun_induction Network.settleFirst network with
  | case1 network broken hresume =>
      exact absurd hresume (hsound.resumeNext.ne_error broken)
  | case2 network hresume => exact yields_ok.mpr hsound
  | case3 network next hresume hlt ih =>
      exact ih (hsound.resumeNext.of_ok hresume 0 next rfl)
  | case4 network first next hresume hlt hfirst =>
      exact yields_ok.mpr (hsound.resumeNext.of_ok hresume first next rfl)

theorem Sound.resumeUpTo (hsound : network.Sound users) (count : ℕ) :
    Yields (network.resumeUpTo count) fun (_, next) => next.Sound users := by
  induction count generalizing network with
  | zero => exact yields_ok.mpr hsound
  | succ count ih =>
      refine hsound.resumeNext.bind ?_
      intro resumed hresumed
      cases resumed with
      | none => exact yields_ok.mpr hsound
      | some outcome =>
          obtain ⟨first, next⟩ := outcome
          refine (ih (hresumed first next rfl)).bind ?_
          rintro ⟨others, last⟩ hlast
          exact yields_ok.mpr hlast

/-! ## Ticks -/

/-- A tick does not fault, and begins only steps of members at rest. -/
theorem Sound.tickLogged (hsound : network.Sound users) :
    Yields network.tickLogged fun (log, _, next) =>
      next.Sound users ∧ ∀ member ∈ log, ∃ allowed, AtRest member allowed := by
  unfold Network.tickLogged
  cases network.discipline with
  | lockstep =>
      refine (hsound.visitAllLogged (List.finRange m)).bind ?_
      rintro ⟨log, begun, between⟩ ⟨hbetween, hlog⟩
      refine hbetween.settle.bind ?_
      rintro ⟨resumed, last⟩ hlast
      exact yields_ok.mpr ⟨hlast, hlog⟩
  | firstSettled =>
      -- the tasks that were ready before the tick come first, and are not logged
      refine (hsound.resumeUpTo network.fabric.ready.length).bind ?_
      rintro ⟨carried, carriedOn⟩ hcarried
      refine (hcarried.visitAllLogged (List.finRange m)).bind ?_
      rintro ⟨log, begun, between⟩ ⟨hbetween, hlog⟩
      by_cases hnone : carried + begun = 0
      · simp only [if_pos hnone]
        refine hbetween.settleFirst.bind ?_
        rintro ⟨settled, last⟩ hlast
        exact yields_ok.mpr ⟨hlast, hlog⟩
      · simp only [if_neg hnone]
        exact yields_ok.mpr ⟨hbetween, hlog⟩

theorem Sound.tick (hsound : network.Sound users) :
    Yields network.tick fun (_, next) => next.Sound users := by
  rw [← map_tickLogged]
  exact yields_map_snd (hsound.tickLogged.mono fun _ houtcome => houtcome.1)

/-! ## The start -/

/-- A network of members at rest is sound if there is room at each channel for all
that use it. -/
theorem sound_ofMembers {discipline : Discipline} {members : Vector (Participant n) m}
    {capacities : Vector ℕ n} (hmembers : ∀ task, AtRest (members.get task) (task ∈ users ·))
    (hroom : ∀ k, capacities.get k + (users k).card ≤ 2 ^ 63 - 1) :
    (ofMembers discipline members capacities).Sound users where
  members := fun task => (hmembers task).1
  fabric := by
    have hidle : (ofMembers discipline members capacities).engaged = fun _ => none :=
      funext fun task => (hmembers task).2
    rw [hidle]
    exact Fabric.sound_ofCapacities hroom
  inFlight := by
    intro task
    have hidle : (ofMembers discipline members capacities).engaged task = none :=
      (hmembers task).2
    rw [hidle]
    simp [isPending_eq_getElem, ofMembers]

/-! ## What a sound network looks like -/

theorem AtRest.node {processor : Node n} (hrest : AtRest (.node processor) allowed) :
    (processor.status = .idle ∨ processor.status = .run) ∧
      processor.pending = none ∧ processor.abandoned = none := by
  obtain ⟨hsound, hengagement⟩ := hrest
  obtain ⟨hpending, habandoned⟩ := (Node.Sound.engagement_eq_none_iff hsound).mp hengagement
  have hread : processor.status ≠ .read := by
    rw [ne_eq, Node.Sound.status_read hsound, hpending]
    simp
  have hwrite : processor.status ≠ .write := by
    rw [ne_eq, Node.Sound.status_write hsound, hpending]
    simp
  refine ⟨?_, hpending, habandoned⟩
  cases hstatus : processor.status with
  | idle => exact Or.inl rfl
  | run => exact Or.inr rfl
  | read => exact absurd hstatus hread
  | write => exact absurd hstatus hwrite

/-- Flags, lines and nodes tell the same story about every member. -/
structure Consistent (network : Network m n) : Prop where
  /-- A member whose step is outstanding is in line once, ready or waiting in a
  channel; no other member is in line. -/
  count_queued : ∀ task, network.fabric.queued.count task = if network.isPending task then 1 else 0
  /-- Those that wait for a slot of a channel are the senders on it. -/
  senders : ∀ task k, task ∈ (network.fabric.channel k).emptySlots.waiters ↔
    task ∉ network.fabric.ready ∧ ∃ value, network.engaged task = some (.sending k value)
  /-- Those that wait for a value of a channel are the receivers on it. -/
  receivers : ∀ task k, task ∈ (network.fabric.channel k).filledSlots.waiters ↔
    task ∉ network.fabric.ready ∧ network.engaged task = some (.receiving k)
  /-- A node has exactly one outstanding operation while its step is. -/
  node_pending : ∀ task processor, network.member task = .node processor →
    ¬ (processor.pending.isSome ∧ processor.abandoned.isSome) ∧
      (network.isPending task ↔ processor.pending.isSome ∨ processor.abandoned.isSome)
  node_status : ∀ task processor, network.member task = .node processor →
    (processor.status = .read ↔ ∃ port, processor.pending = some (.read port)) ∧
      (processor.status = .write ↔ ∃ port value, processor.pending = some (.write port value))
  /-- A tick begins steps only of nodes with nothing outstanding. -/
  begins : Yields network.tickLogged fun (log, _, _) => ∀ processor, .node processor ∈ log →
    (processor.status = .idle ∨ processor.status = .run) ∧
      processor.pending = none ∧ processor.abandoned = none

theorem Sound.consistent (hsound : network.Sound users) : network.Consistent where
  count_queued := by
    intro task
    rw [hsound.fabric.count_queued task, hsound.inFlight task]
  senders := fun _ _ => hsound.fabric.mem_emptySlots_iff
  receivers := fun _ _ => hsound.fabric.mem_filledSlots_iff
  node_pending := by
    intro task processor hmember
    have hnode : (Participant.node processor).Sound (task ∈ users ·) :=
      hmember ▸ hsound.members task
    have hnone := Node.Sound.engagement_eq_none_iff hnode
    have hengaged : network.engaged task = processor.engagement := by
      rw [engaged, hmember]
      rfl
    constructor
    · rintro ⟨hpending, habandoned⟩
      rcases Node.Sound.not_both hnode with heq | heq
      · simp [heq] at hpending
      · simp [heq] at habandoned
    -- the flag says whether the task is engaged, and so whether something is outstanding
    · rw [hsound.inFlight task, hengaged, Option.isSome_iff_ne_none, ne_eq, hnone]
      simp only [Option.isSome_iff_ne_none, ne_eq]
      exact Decidable.not_and_iff_not_or_not
  node_status := by
    intro task processor hmember
    have hnode : (Participant.node processor).Sound (task ∈ users ·) :=
      hmember ▸ hsound.members task
    exact ⟨Node.Sound.status_read hnode, Node.Sound.status_write hnode⟩
  begins := hsound.tickLogged.mono fun _ houtcome processor hmem =>
    (houtcome.2 _ hmem).choose_spec.node

end NodeGrid.Network

import NodeGrid.Proofs.Network.Soundness
import NodeGrid.Proofs.Participant.Deeds

/-!
# What a network does

Each operation of a network has a trace: the deeds of all members, in the order in
which they are done.

A network in the middle of a tick is in a `Stage`, which says what it is about to
do.  `Step` lists everything that can happen next, one member at a time, and a
`Path` is a sequence of steps with all of its deeds.  Whatever the loops of a
network do is a path with the trace of the loop (`path_of_visitAll`,
`path_of_settle`, `path_of_tick` and their like), so that what every step keeps is
kept by every operation.  The first of these things is that the network is sound
(`Path.sound`); then no operation of a participant can be missing from a trace, since
the deeds of a path lead from the channels at its start to the channels at its end
(`Path.replay`).
-/

namespace NodeGrid

/-- What a network is about to do. -/
inductive Stage (m : ℕ) where
  /-- It resumes what is ready, or has nothing to do. -/
  | resuming
  /-- It resumes at most the given number of tasks and then visits all members. -/
  | carrying (count : ℕ)
  /-- It visits the given members. -/
  | visiting (rest : List (Fin m))

/-- A stage in which a task is resumed, and the one after it. -/
inductive Stage.Resumes {m : ℕ} : Stage m → Stage m → Prop where
  | resuming : Resumes .resuming .resuming
  | carrying {count : ℕ} : Resumes (.carrying (count + 1)) (.carrying count)

namespace Network

variable {m n : ℕ}

/-! ## Traces -/

/-- The deeds of a member that begins a step. -/
def beginTrace (network : Network m n) (task : Fin m) : Log (Fin m) n :=
  logged task (.begin :: (network.member task).stepDeeds task network.fabric)

/-- The deeds of a member that gives up its step. -/
def withdrawTrace (network : Network m n) (task : Fin m) : Log (Fin m) n :=
  logged task (network.member task).withdrawDeeds

/-- The deeds of the member whose task is the first of the ready ones. -/
def resumeTrace (network : Network m n) : Log (Fin m) n :=
  match network.fabric.ready with
  | [] => []
  | task :: ready =>
    logged task ((network.member task).resumeDeeds task (network.fabric.withReady ready))

/-- The log of a visit. -/
def visitTrace (network : Network m n) (task : Fin m) : Log (Fin m) n :=
  if network.isPending task then
    following ((network.member task).withdraw task network.fabric) fun
      | some (member, fabric) =>
        network.withdrawTrace task ++ (network.put task member false fabric).beginTrace task
      | none => []
  else
    network.beginTrace task

/-- The log of visits in the given order. -/
def visitAllTrace (network : Network m n) : List (Fin m) → Log (Fin m) n
  | [] => []
  | task :: rest =>
    network.visitTrace task ++
      following (network.visit task) fun (_, next) => next.visitAllTrace rest

/-- The log of resuming tasks until none is ready. -/
def settleTrace (network : Network m n) : Log (Fin m) n :=
  match hresume : network.resumeNext with
  | .error _ | .ok none => []
  | .ok (some (_, next)) =>
    have := workload_lt_of_resumeNext hresume
    network.resumeTrace ++ next.settleTrace
termination_by network.workload

/-- The log of resuming tasks until a step settles. -/
def settleFirstTrace (network : Network m n) : Log (Fin m) n :=
  match hresume : network.resumeNext with
  | .error _ | .ok none => []
  | .ok (some (first, next)) =>
    have := workload_lt_of_resumeNext hresume
    network.resumeTrace ++ if first = 0 then next.settleFirstTrace else []
termination_by network.workload

/-- The log of resuming at most the given number of tasks. -/
def resumeUpToTrace (network : Network m n) : ℕ → Log (Fin m) n
  | 0 => []
  | count + 1 =>
    network.resumeTrace ++
      following network.resumeNext fun
        | some (_, next) => next.resumeUpToTrace count
        | none => []

/-- The deeds of all members in a tick. -/
def tickTrace (network : Network m n) : Log (Fin m) n :=
  match network.discipline with
  | .lockstep =>
    network.visitAllTrace (List.finRange m) ++
      following (network.visitAll (List.finRange m)) fun (_, next) => next.settleTrace
  | .firstSettled =>
    let count := network.fabric.ready.length
    network.resumeUpToTrace count ++
      following (network.resumeUpTo count) fun (carried, between) =>
        between.visitAllTrace (List.finRange m) ++
          following (between.visitAll (List.finRange m)) fun (begun, next) =>
            if carried + begun = 0 then next.settleFirstTrace else []

/-! ## Steps -/

/-- Without doing anything, a network goes on to the next stage. -/
inductive Turn (network : Network m n) : Stage m → Stage m → Prop where
  /-- A tick begins after everything has come to rest. -/
  | lockstep (hdiscipline : network.discipline = .lockstep) (hready : network.fabric.ready = []) :
      Turn network .resuming (.visiting (List.finRange m))
  /-- A tick begins with what the last one has left ready. -/
  | firstSettled (hdiscipline : network.discipline = .firstSettled) :
      Turn network .resuming (.carrying network.fabric.ready.length)
  | carried : Turn network (.carrying 0) (.visiting (List.finRange m))
  | idle {count : ℕ} (hready : network.fabric.ready = []) :
      Turn network (.carrying count) (.visiting (List.finRange m))
  | visited : Turn network (.visiting []) .resuming

/-- What can happen next, with its deeds.  Only the given members get new programs. -/
inductive Step (loads : Fin m → Prop) :
    Stage m → Network m n → Log (Fin m) n → Stage m → Network m n → Prop where
  | begin {network : Network m n} {task : Fin m} {rest : List (Fin m)} {progress : Progress}
      {member : Participant n} {fabric : Fabric (Fin m) n} (hidle : network.isPending task = false)
      (hstep : (network.member task).step task network.fabric = .ok (progress, member, fabric)) :
      Step loads (.visiting (task :: rest)) network (network.beginTrace task) (.visiting rest)
        (network.put task member (progress = .pending) fabric)
  | withdraw {network : Network m n} {task : Fin m} {rest : List (Fin m)}
      {member : Participant n} {fabric : Fabric (Fin m) n}
      (hpending : network.isPending task = true)
      (hwithdraw : (network.member task).withdraw task network.fabric =
        .ok (some (member, fabric))) :
      Step loads (.visiting (task :: rest)) network (network.withdrawTrace task)
        (.visiting (task :: rest)) (network.put task member false fabric)
  | stall {network : Network m n} {task : Fin m} {rest : List (Fin m)}
      (hpending : network.isPending task = true) :
      Step loads (.visiting (task :: rest)) network [] (.visiting rest)
        (network.put task (network.member task).stall true network.fabric)
  | resume {network : Network m n} {task : Fin m} {ready : List (Fin m)} {progress : Progress}
      {member : Participant n} {fabric : Fabric (Fin m) n} {first second : Stage m}
      (hstages : first.Resumes second) (hready : network.fabric.ready = task :: ready)
      (hresume : (network.member task).resume task (network.fabric.withReady ready) =
        .ok (progress, member, fabric)) :
      Step loads first network network.resumeTrace second
        (network.put task member (progress = .pending && network.isPending task) fabric)
  | turn {network : Network m n} {first second : Stage m} (hturn : network.Turn first second) :
      Step loads first network [] second network
  | load {network : Network m n} {task : Fin m} {source : String} (hload : loads task) :
      Step loads .resuming network [] .resuming (network.load task source)

/-- Steps one after the other, with all of their deeds. -/
inductive Path (loads : Fin m → Prop) :
    Stage m → Network m n → Log (Fin m) n → Stage m → Network m n → Prop where
  | nil {stage : Stage m} {network : Network m n} : Path loads stage network [] stage network
  | cons {first second third : Stage m} {network next last : Network m n}
      {deeds log : Log (Fin m) n} (hstep : Step loads first network deeds second next)
      (hrest : Path loads second next log third last) :
      Path loads first network (deeds ++ log) third last

variable {loads : Fin m → Prop} {first second third : Stage m} {network next last : Network m n}
  {log later : Log (Fin m) n} {task : Fin m} {settled : ℕ}

theorem Step.path (hstep : Step loads first network log second next) :
    Path loads first network log second next := by
  rw [← List.append_nil log]
  exact .cons hstep .nil

/-- Going on to the next stage leaves no deed. -/
theorem Path.turn (hturn : network.Turn first second)
    (hrest : Path loads second network log third last) :
    Path loads first network log third last :=
  .cons (.turn hturn) hrest

theorem Path.trans (hfirst : Path loads first network log second next)
    (hsecond : Path loads second next later third last) :
    Path loads first network (log ++ later) third last := by
  induction hfirst with
  | nil => exact hsecond
  | cons hstep hrest ih =>
      rw [List.append_assoc]
      exact .cons hstep (ih hsecond)

theorem Step.discipline_eq (hstep : Step loads first network log second next) :
    next.discipline = network.discipline := by
  cases hstep <;> rfl

theorem Path.discipline_eq (hpath : Path loads first network log second next) :
    next.discipline = network.discipline := by
  induction hpath with
  | nil => rfl
  | cons hstep hrest ih => exact ih.trans hstep.discipline_eq

/-! ## Operations are paths -/

theorem step_of_begin {rest : List (Fin m)} (hidle : network.isPending task = false)
    (hbegin : network.begin task = .ok (settled, next)) :
    Step loads (.visiting (task :: rest)) network (network.beginTrace task) (.visiting rest)
      next := by
  obtain ⟨⟨progress, member, fabric⟩, hstep, hnext⟩ := bind_eq_ok.mp hbegin
  have hbegun : Step loads (.visiting (task :: rest)) network (network.beginTrace task)
      (.visiting rest) (network.put task member (progress = .pending) fabric) :=
    .begin hidle hstep
  cases progress with
  | settled =>
      cases hnext
      exact hbegun
  | pending =>
      cases hnext
      exact hbegun

theorem path_of_visit {rest : List (Fin m)} (hvisit : network.visit task = .ok (settled, next)) :
    Path loads (.visiting (task :: rest)) network (network.visitTrace task) (.visiting rest)
      next := by
  unfold visit at hvisit
  unfold visitTrace
  by_cases hpending : network.isPending task = true
  · rw [if_pos hpending] at hvisit ⊢
    obtain ⟨withdrawn, hwithdraw, hvisit⟩ := bind_eq_ok.mp hvisit
    rw [hwithdraw, following_ok]
    cases withdrawn with
    | some outcome =>
        obtain ⟨member, fabric⟩ := outcome
        exact .cons (.withdraw hpending hwithdraw) (step_of_begin isPending_put_self hvisit).path
    | none =>
        cases hvisit
        exact Step.path (.stall hpending)
  · rw [if_neg hpending] at hvisit ⊢
    exact (step_of_begin (Bool.not_eq_true _ ▸ hpending) hvisit).path

theorem path_of_visitAll {tasks : List (Fin m)} (hvisit : network.visitAll tasks = .ok (settled, next)) :
    Path loads (.visiting tasks) network (network.visitAllTrace tasks) (.visiting []) next := by
  induction tasks generalizing network settled with
  | nil =>
      cases hvisit
      exact .nil
  | cons task rest ih =>
      obtain ⟨⟨first, between⟩, hfirst, hrest⟩ := bind_eq_ok.mp hvisit
      obtain ⟨⟨others, last⟩, hothers, hpair⟩ := bind_eq_ok.mp hrest
      cases hpair
      rw [visitAllTrace, hfirst, following_ok]
      exact (path_of_visit hfirst).trans (ih hothers)

theorem step_of_resumeNext (hstages : first.Resumes second)
    (hresume : network.resumeNext = .ok (some (settled, next))) :
    Step loads first network network.resumeTrace second next := by
  obtain ⟨task, ready, progress, member, fabric, hready, hmember, -, rfl⟩ :=
    resumeNext_eq_some_iff.mp hresume
  exact .resume hstages hready hmember

/-- Nothing is resumed only when no task is ready. -/
theorem ready_of_resumeNext (hresume : network.resumeNext = .ok none) : network.fabric.ready = [] := by
  unfold resumeNext at hresume
  cases hready : network.fabric.ready with
  | nil => rfl
  | cons task ready =>
      rw [hready] at hresume
      obtain ⟨⟨progress, member, fabric⟩, -, hnext⟩ := bind_eq_ok.mp hresume
      cases progress <;> cases hnext

/-- Resumes a task, if one is ready, and goes on from there. -/
def resumeThen (network : Network m n) (turn : ℕ → Network m n → Except Fault (ℕ × Network m n)) :
    Except Fault (ℕ × Network m n) := do
  match ← network.resumeNext with
  | none => return (0, network)
  | some (first, next) => turn first next

theorem resumeThen_of_none {turn : ℕ → Network m n → Except Fault (ℕ × Network m n)}
    (hresume : network.resumeNext = .ok none) : network.resumeThen turn = .ok (0, network) := by
  rw [resumeThen, hresume]
  rfl

theorem resumeThen_of_some {turn : ℕ → Network m n → Except Fault (ℕ × Network m n)} {first : ℕ}
    (hresume : network.resumeNext = .ok (some (first, next))) :
    network.resumeThen turn = turn first next := by
  rw [resumeThen, hresume]
  rfl

theorem settle_eq (network : Network m n) :
    network.settle = network.resumeThen fun first next => do
      let (others, last) ← next.settle
      return (first + others, last) := by
  rw [settle]
  split
  · rename_i broken hresume
    rw [resumeThen, hresume]
    rfl
  · rename_i hresume
    rw [resumeThen_of_none hresume]
  · rename_i first next hresume
    rw [resumeThen_of_some hresume]

theorem settleFirst_eq (network : Network m n) :
    network.settleFirst = network.resumeThen fun first next =>
      if first = 0 then next.settleFirst else .ok (first, next) := by
  rw [settleFirst]
  split
  · rename_i broken hresume
    rw [resumeThen, hresume]
    rfl
  · rename_i hresume
    rw [resumeThen_of_none hresume]
  · rename_i first next hresume
    rw [resumeThen_of_some hresume]

/-- Where no task is ready, there is nothing to settle. -/
theorem settle_of_ready_nil (hready : network.fabric.ready = []) :
    network.settle = .ok (0, network) ∧ network.settleFirst = .ok (0, network) := by
  have hresume : network.resumeNext = .ok none := by simp only [resumeNext, hready]
  rw [settle_eq, settleFirst_eq, resumeThen_of_none hresume, resumeThen_of_none hresume]
  exact ⟨rfl, rfl⟩

theorem path_of_settle (hsettle : network.settle = .ok (settled, next)) :
    Path loads .resuming network network.settleTrace .resuming next ∧ next.fabric.ready = [] := by
  fun_induction Network.settle network generalizing settled with
  | case1 network broken hresume => cases hsettle
  | case2 network hresume =>
      cases hsettle
      have htrace : next.settleTrace = [] := by
        rw [settleTrace]
        split <;> simp_all
      rw [htrace]
      exact ⟨.nil, ready_of_resumeNext hresume⟩
  | case3 network first between hresume hlt ih =>
      obtain ⟨⟨others, last⟩, hrest, hpair⟩ := bind_eq_ok.mp hsettle
      cases hpair
      obtain ⟨hpath, hready⟩ := ih hrest
      -- the trace follows the same recursion
      have htrace : network.settleTrace = network.resumeTrace ++ between.settleTrace := by
        rw [settleTrace]
        split <;> simp_all
      rw [htrace]
      exact ⟨.cons (step_of_resumeNext .resuming hresume) hpath, hready⟩

theorem path_of_settleFirst (hsettle : network.settleFirst = .ok (settled, next)) :
    Path loads .resuming network network.settleFirstTrace .resuming next := by
  -- the trace goes on exactly as long as nothing settles
  have htrace : ∀ {network between : Network m n} {first : ℕ},
      network.resumeNext = .ok (some (first, between)) →
        network.settleFirstTrace =
          network.resumeTrace ++ if first = 0 then between.settleFirstTrace else [] := by
    intro network between first hresume
    rw [settleFirstTrace]
    split <;> simp_all
  fun_induction Network.settleFirst network generalizing settled with
  | case1 network broken hresume => cases hsettle
  | case2 network hresume =>
      cases hsettle
      have hnothing : next.settleFirstTrace = [] := by
        rw [settleFirstTrace]
        split <;> simp_all
      rw [hnothing]
      exact .nil
  | case3 network between hresume hlt ih =>
      rw [htrace hresume, if_pos rfl]
      exact .cons (step_of_resumeNext .resuming hresume) (ih hsettle)
  | case4 network first between hresume hlt hfirst =>
      cases hsettle
      rw [htrace hresume, if_neg hfirst, List.append_nil]
      exact (step_of_resumeNext .resuming hresume).path

theorem path_of_resumeUpTo {count : ℕ} (hresumed : network.resumeUpTo count = .ok (settled, next)) :
    Path loads (.carrying count) network (network.resumeUpToTrace count)
      (.visiting (List.finRange m)) next := by
  induction count generalizing network settled with
  | zero =>
      cases hresumed
      exact Step.path (.turn .carried)
  | succ count ih =>
      obtain ⟨resumed, hresume, hrest⟩ := bind_eq_ok.mp hresumed
      rw [resumeUpToTrace, hresume, following_ok]
      cases resumed with
      | none =>
          -- fewer tasks are ready than may be carried over
          have hready := ready_of_resumeNext hresume
          have htrace : network.resumeTrace = [] := by simp [resumeTrace, hready]
          cases hrest
          rw [htrace]
          exact Step.path (.turn (.idle hready))
      | some outcome =>
          obtain ⟨first, between⟩ := outcome
          obtain ⟨⟨others, last⟩, hothers, hpair⟩ := bind_eq_ok.mp hrest
          cases hpair
          exact .cons (step_of_resumeNext .carrying hresume) (ih hothers)

/-- In lockstep, nothing is left ready between two ticks. -/
def IsQuiet (network : Network m n) : Prop :=
  network.discipline = .lockstep → network.fabric.ready = []

theorem path_of_tick (hquiet : network.IsQuiet) (htick : network.tick = .ok (settled, next)) :
    Path loads .resuming network network.tickTrace .resuming next ∧ next.IsQuiet := by
  unfold tick at htick
  unfold tickTrace
  cases hdiscipline : network.discipline with
  | lockstep =>
      rw [hdiscipline] at htick
      obtain ⟨⟨begun, between⟩, hvisit, hrest⟩ := bind_eq_ok.mp htick
      obtain ⟨⟨resumed, last⟩, hsettle, hpair⟩ := bind_eq_ok.mp hrest
      cases hpair
      obtain ⟨hpath, hready⟩ : Path loads .resuming between between.settleTrace .resuming _ ∧ _ :=
        path_of_settle hsettle
      simp only [hvisit, following_ok]
      refine ⟨?_, fun _ => hready⟩
      exact .turn (.lockstep hdiscipline (hquiet hdiscipline))
        ((path_of_visitAll hvisit).trans (.turn .visited hpath))
  | firstSettled =>
      rw [hdiscipline] at htick
      obtain ⟨⟨carried, carriedOn⟩, hcarry, hrest⟩ := bind_eq_ok.mp htick
      obtain ⟨⟨begun, between⟩, hvisit, hrest⟩ := bind_eq_ok.mp hrest
      simp only [hcarry, following_ok, hvisit]
      -- the last part of the tick resumes tasks, unless a step has settled before it
      have hlast : Path loads .resuming between
          (if carried + begun = 0 then between.settleFirstTrace else []) .resuming next := by
        by_cases hnone : carried + begun = 0
        · simp only [if_pos hnone] at hrest ⊢
          exact path_of_settleFirst hrest
        · simp only [if_neg hnone] at hrest ⊢
          cases hrest
          exact .nil
      have hpath : Path loads .resuming network _ .resuming next :=
        .turn (.firstSettled hdiscipline) ((path_of_resumeUpTo hcarry).trans
          ((path_of_visitAll hvisit).trans (.turn .visited hlast)))
      refine ⟨hpath, fun hlockstep => ?_⟩
      rw [hpath.discipline_eq, hdiscipline] at hlockstep
      cases hlockstep

/-! ## What steps keep -/

theorem member_load_self {source : String} :
    (network.load task source).member task = (network.member task).load source := by
  simp [member_eq_getElem, load]

theorem member_load_of_ne {source : String} {other : Fin m} (hne : other ≠ task) :
    (network.load task source).member other = network.member other :=
  Vector.getElem_set_ne task.isLt other.isLt fun heq => hne (Fin.ext heq.symm)

/-- A member keeps what it can reach if it is replaced by one that does. -/
theorem reaches_put {member : Participant n} {inFlight : Bool} {fabric : Fabric (Fin m) n}
    (hmember : member.Reaches = (network.member task).Reaches) (other : Fin m) :
    ((network.put task member inFlight fabric).member other).Reaches =
      (network.member other).Reaches := by
  by_cases hother : other = task
  · subst hother
    rwa [member_put_self]
  · rw [member_put_of_ne hother]

theorem Step.reaches_eq (hstep : Step loads first network log second next) (task : Fin m) :
    (next.member task).Reaches = (network.member task).Reaches := by
  cases hstep with
  | begin hidle hmember => exact reaches_put (Participant.reaches_of_step hmember) task
  | withdraw hpending hmember => exact reaches_put (Participant.reaches_of_withdraw hmember) task
  | stall hpending => exact reaches_put Participant.reaches_stall task
  | resume hstages hready hmember => exact reaches_put (Participant.reaches_of_resume hmember) task
  | turn hturn => rfl
  | @load _ other source hload =>
      by_cases hother : task = other
      · subst hother
        rw [member_load_self, Participant.reaches_load]
      · rw [member_load_of_ne hother]

theorem Path.reaches_eq (hpath : Path loads first network log second next) (task : Fin m) :
    (next.member task).Reaches = (network.member task).Reaches := by
  induction hpath with
  | nil => rfl
  | cons hstep hrest ih => exact ih.trans (hstep.reaches_eq task)

variable {users : Fin n → Finset (Fin m)}

theorem Sound.idle_of_isPending (hsound : network.Sound users)
    (hidle : network.isPending task = false) : network.engaged task = none := by
  rw [hsound.inFlight task] at hidle
  simpa using hidle

/-- A new program may use whatever its node can reach. -/
theorem Sound.load_of_reaches (hsound : network.Sound users)
    (hreach : ∀ k, (network.member task).Reaches k → task ∈ users k) (source : String) :
    (network.load task source).Sound users := by
  refine hsound.load fun instruction _ port _ k hport => hreach k ?_
  cases hmember : network.member task with
  | node processor =>
      rw [hmember] at hport
      exact ⟨port, hport⟩
  | source feed => simp [hmember, Participant.ports] at hport
  | sink store => simp [hmember, Participant.ports] at hport

/-- A step keeps the network sound.  New programs may use whatever their nodes can
reach. -/
theorem Step.sound (hstep : Step loads first network log second next) (hsound : network.Sound users)
    (hreach : ∀ task, loads task → ∀ k, (network.member task).Reaches k → task ∈ users k) :
    next.Sound users := by
  cases hstep with
  | @begin _ task rest progress member fabric hidle hmember =>
      -- the step is a piece of the visit
      have hbegin : network.begin task =
          .ok (if progress = .settled then 1 else 0,
            network.put task member (progress = .pending) fabric) := by
        rw [Network.begin, hmember]
        cases progress <;> rfl
      exact (hsound.begin (hsound.idle_of_isPending hidle)).of_ok hbegin
  | @withdraw _ task rest member fabric hpending hmember =>
      exact (hsound.withdrawn hpending hmember).1
  | @stall _ task rest hpending =>
      obtain ⟨hmember, hengagement⟩ := (hsound.members task).stall
      refine hsound.put hmember ?_ ?_
      · rw [hengagement]
        exact hsound.fabric_update task
      · rw [hengagement, ← engaged, ← hsound.inFlight task]
        exact hpending.symm
  | @resume _ task ready progress member fabric _ _ hstages hready hmember =>
      exact hsound.resumeNext.of_ok
        (resumeNext_eq_some_iff.mpr ⟨_, _, _, _, _, hready, hmember, rfl, rfl⟩) _ _ rfl
  | turn hturn => exact hsound
  | load hload => exact hsound.load_of_reaches (hreach _ hload) _

theorem Path.sound (hpath : Path loads first network log second next) (hsound : network.Sound users)
    (hreach : ∀ task, loads task → ∀ k, (network.member task).Reaches k → task ∈ users k) :
    next.Sound users := by
  induction hpath with
  | nil => exact hsound
  | cons hstep hrest ih =>
      refine ih (hstep.sound hsound hreach) fun task hload k hk => hreach task hload k ?_
      rwa [← hstep.reaches_eq task]

/-- The channels change as the deeds of a step say. -/
theorem Step.replay (hstep : Step loads first network log second next)
    (hsound : network.Sound users) :
    replay network.fabric.channels log = some next.fabric.channels := by
  cases hstep with
  | @begin _ task rest progress member fabric hidle hmember =>
      exact ((hsound.members task).begins_of_step (hsound.idle_of_isPending hidle) hmember).replay
  | @withdraw _ task rest member fabric hpending hmember =>
      exact ((hsound.members task).withdraws_of_withdraw hmember).replay
  | stall hpending => rfl
  | @resume _ task ready progress member fabric _ _ hstages hready hmember =>
      have hengaged : (network.member task).engagement ≠ none := by
        have hsome := hsound.fabric.engaged_of_ready task (by simp [hready])
        exact Option.isSome_iff_ne_none.mp hsome
      have hresumes := ((hsound.members task).resumes_of_resume hengaged hmember).replay
      simp only [resumeTrace, hready]
      exact hresumes
  | turn hturn => rfl
  | load hload => rfl

/-- The deeds of a path lead from the channels at its start to those at its end. -/
theorem Path.replay (hpath : Path loads first network log second next)
    (hsound : network.Sound users)
    (hreach : ∀ task, loads task → ∀ k, (network.member task).Reaches k → task ∈ users k) :
    replay network.fabric.channels log = some next.fabric.channels := by
  induction hpath with
  | nil => rfl
  | cons hstep hrest ih =>
      rw [replay_append, hstep.replay hsound, Option.bind_some]
      refine ih (hstep.sound hsound hreach) fun task hload k hk => hreach task hload k ?_
      rwa [← hstep.reaches_eq task]

end Network

end NodeGrid

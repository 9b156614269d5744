import NodeGrid.Participant

/-!
# Networks

A network runs its members tick by tick, one after the other on a single
thread.  The task of a member is its number.  A step that has to wait is
remembered only by its task, which waits in a channel.  Whatever wakes the task
moves it to the line of ready tasks, and the network resumes it from there.

When a tick ends is a matter of discipline:

* in *lockstep*, a tick lets every member begin a step, unless one is
  outstanding, and goes on until no task is ready;
* under *first settled*, a tick first resumes what the last one has left ready.
  It then lets members begin steps in the same way, and goes on only if no step
  has settled in it yet, up to the first that does.

Resuming a task always lowers the *workload* of the network
(`workload_lt_of_resumeNext`), so `settle` comes to its end from every state.
-/

namespace NodeGrid

/-- When a tick ends. -/
inductive Discipline where
  | lockstep
  | firstSettled
deriving DecidableEq

namespace Discipline

/-- The disciplines in the order in which they are listed. -/
def all : List Discipline := [.lockstep, .firstSettled]

/-- The name by which the discipline is asked for. -/
def name : Discipline → String
  | .lockstep => "lockstep"
  | .firstSettled => "first-settled"

/-- The discipline of the given name, or why there is none. -/
def ofName (name : String) : Except String Discipline :=
  match all.find? fun discipline => discipline.name == name with
  | some discipline => .ok discipline
  | none =>
    .error ("unknown discipline `" ++ name ++ "`, expected `lockstep` or `first-settled`")

end Discipline

/-- Members that talk through a shared fabric. -/
structure Network (m n : Nat) where
  discipline : Discipline
  members : Vector (Participant n) m
  /-- Which members have a step outstanding. -/
  inFlight : Vector Bool m
  fabric : Fabric (Fin m) n

namespace Network

variable {m n : Nat}

/-- A network in which nothing has happened yet. -/
def ofMembers (discipline : Discipline) (members : Vector (Participant n) m)
    (capacities : Vector Nat n) : Network m n where
  discipline
  members
  inFlight := .replicate m false
  fabric := .ofCapacities capacities

/-- The member with the given task. -/
def member (network : Network m n) (task : Fin m) : Participant n :=
  network.members.get task

/-- Whether the member has a step outstanding. -/
def isPending (network : Network m n) (task : Fin m) : Bool :=
  network.inFlight.get task

theorem member_eq_getElem (network : Network m n) (task : Fin m) :
    network.member task = getElem network.members task.val task.isLt :=
  rfl

theorem isPending_eq_getElem (network : Network m n) (task : Fin m) :
    network.isPending task = getElem network.inFlight task.val task.isLt :=
  rfl

/-- The number of members with a step outstanding. -/
def pending (network : Network m n) : Nat :=
  network.inFlight.toList.count true

/-- Replaces a member, whether its step is outstanding, and the fabric. -/
def put (network : Network m n) (task : Fin m) (member : Participant n) (inFlight : Bool)
    (fabric : Fabric (Fin m) n) : Network m n :=
  { network with
    members := network.members.set task member task.isLt
    inFlight := network.inFlight.set task inFlight task.isLt
    fabric }

/-- Replaces the program of a node.  The other members and the fabric do not
notice. -/
def load (network : Network m n) (task : Fin m) (source : String) : Network m n :=
  { network with members := network.members.set task ((network.member task).load source) task.isLt }

/-! ## Beginning steps -/

/-- Begins a step of a member that has none outstanding.  Returns the number of
steps that this settles. -/
def begin (network : Network m n) (task : Fin m) : Except Fault (Nat × Network m n) := do
  match ← (network.member task).step task network.fabric with
  | (.settled, member, fabric) => return (1, network.put task member false fabric)
  | (.pending, member, fabric) => return (0, network.put task member true fabric)

/-- Begins a step of a member, unless one is outstanding that goes on. -/
def visit (network : Network m n) (task : Fin m) : Except Fault (Nat × Network m n) :=
  if network.isPending task then do
    match ← (network.member task).withdraw task network.fabric with
    | some (member, fabric) => (network.put task member false fabric).begin task
    | none => return (0, network.put task (network.member task).stall true network.fabric)
  else
    network.begin task

/-- Visits members in the given order. -/
def visitAll (network : Network m n) : List (Fin m) → Except Fault (Nat × Network m n)
  | [] => .ok (0, network)
  | task :: rest => do
    let (first, network) ← network.visit task
    let (others, network) ← network.visitAll rest
    return (first + others, network)

/-! ## Resuming tasks -/

/-- Resumes the first of the ready tasks.  Returns the number of steps that
this settles; `none` when no task is ready. -/
def resumeNext (network : Network m n) : Except Fault (Option (Nat × Network m n)) :=
  match network.fabric.ready with
  | [] => .ok none
  | task :: ready => do
    match ← (network.member task).resume task (network.fabric.withReady ready) with
    | (.settled, member, fabric) => return some (1, network.put task member false fabric)
    | (.pending, member, fabric) =>
      return some (0, network.put task member (network.isPending task) fabric)

/-- What is left to resume: the ready and the waiting tasks, of which one that
waits with a read may come to wait again. -/
def workload (network : Network m n) : Nat :=
  network.fabric.load + total Participant.debt network.members.toList

theorem workload_put (network : Network m n) (task : Fin m) (member : Participant n)
    (inFlight : Bool) (fabric : Fabric (Fin m) n) :
    (network.put task member inFlight fabric).workload + network.fabric.load +
        (network.member task).debt =
      network.workload + fabric.load + member.debt := by
  have htask : task.val < network.members.toList.length := by simp
  have hset := total_set Participant.debt htask member
  simp only [workload, put, member_eq_getElem, Vector.toList_set, Vector.getElem_toList] at hset ⊢
  omega

/-- Resuming a task lowers the workload. -/
theorem workload_lt_of_resumeNext {network rest : Network m n} {settled : Nat}
    (hresume : network.resumeNext = .ok (some (settled, rest))) :
    rest.workload < network.workload := by
  unfold resumeNext at hresume
  split at hresume
  · cases hresume
  · rename_i task ready hready
    cases hmember : (network.member task).resume task (network.fabric.withReady ready) with
    | error broken => simp [hmember, bind, Except.bind] at hresume
    | ok outcome =>
      obtain ⟨progress, member, fabric⟩ := outcome
      have hload := Participant.load_resume_le hmember
      -- the task leaves the queue, and what it wakes is paid for by what it no longer owes
      have hpopped := Fabric.load_withReady hready
      simp only [hmember, bind, Except.bind, pure, Except.pure] at hresume
      cases progress with
      | settled =>
        cases hresume
        have hput := network.workload_put task member false fabric
        omega
      | pending =>
        cases hresume
        have hput := network.workload_put task member (network.isPending task) fabric
        omega

/-- Resumes tasks until none is ready.  Returns the number of steps that this
settles. -/
def settle (network : Network m n) : Except Fault (Nat × Network m n) :=
  match hresume : network.resumeNext with
  | .error broken => .error broken
  | .ok none => .ok (0, network)
  | .ok (some (first, next)) =>
    have := workload_lt_of_resumeNext hresume
    do
      let (others, last) ← next.settle
      return (first + others, last)
termination_by network.workload

/-- Resumes tasks until a step settles or none is ready. -/
def settleFirst (network : Network m n) : Except Fault (Nat × Network m n) :=
  match hresume : network.resumeNext with
  | .error broken => .error broken
  | .ok none => .ok (0, network)
  | .ok (some (first, next)) =>
    have := workload_lt_of_resumeNext hresume
    if first = 0 then next.settleFirst else .ok (first, next)
termination_by network.workload

/-- Resumes at most the given number of tasks. -/
def resumeUpTo (network : Network m n) : Nat → Except Fault (Nat × Network m n)
  | 0 => .ok (0, network)
  | count + 1 => do
    match ← network.resumeNext with
    | none => return (0, network)
    | some (first, network) =>
      let (others, network) ← network.resumeUpTo count
      return (first + others, network)

/-! ## Ticks -/

/-- A tick in which every step that can settle does. -/
def tickLockstep (network : Network m n) : Except Fault (Nat × Network m n) := do
  let (begun, network) ← network.visitAll (List.finRange m)
  let (resumed, network) ← network.settle
  return (begun + resumed, network)

/-- A tick that ends as soon as a step of it has settled. -/
def tickFirstSettled (network : Network m n) : Except Fault (Nat × Network m n) := do
  let (carried, network) ← network.resumeUpTo network.fabric.ready.length
  let (begun, network) ← network.visitAll (List.finRange m)
  if carried + begun = 0 then
    network.settleFirst
  else
    return (carried + begun, network)

/-- Runs one tick.  Returns the number of steps that settle in it. -/
def tick (network : Network m n) : Except Fault (Nat × Network m n) :=
  match network.discipline with
  | .lockstep => network.tickLockstep
  | .firstSettled => network.tickFirstSettled

end Network

end NodeGrid

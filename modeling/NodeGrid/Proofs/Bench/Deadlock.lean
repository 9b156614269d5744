import NodeGrid.Proofs.Bench.Operations
import NodeGrid.Proofs.Network.Standstill

/-!
# Deadlocks are permanent

If no step settles in a tick, none ever will unless a node gets a new program.  The
network is then deadlocked (`Network.Sound.deadlocked_of_tick`), and a deadlocked
network goes through its ticks without doing anything: no withdrawal is asked for, no
step begins and no task is ready, so that each tick only counts one more cycle for
every node (`Network.Deadlocked.tick`).  The same holds for a bench around it
(`Network.Deadlocked.performAll`), whose sinks collect nothing any more.

This is shown for every network that can be reached from new members (`Reachable`),
in any order and with any wiring, among them the networks of all benches
(`Bench.reachable_of_performAll`).
-/

namespace NodeGrid

variable {m n : ℕ}

/-- The participant after ticks on which its step went on.  Only nodes count them. -/
def Participant.stalled (participant : Participant n) (count : ℕ) : Participant n :=
  match participant with
  | .node processor => .node { processor with requested := processor.requested + count }
  | .source feed => .source feed
  | .sink store => .sink store

namespace Participant

variable {participant : Participant n}

@[simp] theorem stalled_zero : participant.stalled 0 = participant := by
  cases participant <;> rfl

theorem stalled_one : participant.stalled 1 = participant.stall := by
  cases participant <;> rfl

theorem stalled_stalled (first second : ℕ) :
    (participant.stalled first).stalled second = participant.stalled (first + second) := by
  cases participant with
  | node processor => simp only [stalled, Nat.add_assoc]
  | source feed => rfl
  | sink store => rfl

@[simp] theorem abandoned_stalled (count : ℕ) :
    (participant.stalled count).abandoned = participant.abandoned := by
  cases participant <;> rfl

@[simp] theorem sink?_stalled (count : ℕ) :
    (participant.stalled count).sink? = participant.sink? := by
  cases participant <;> rfl

end Participant

namespace Network

variable {network next : Network m n} {task : Fin m}

/-! ## Deadlocked networks -/

/-- The network after ticks on which the steps of its members went on, as many for each
member as given. -/
def stalled (network : Network m n) (counts : Fin m → ℕ) : Network m n :=
  { network with members := .ofFn fun task => (network.member task).stalled (counts task) }

@[simp] theorem member_stalled (counts : Fin m → ℕ) :
    (network.stalled counts).member task = (network.member task).stalled (counts task) := by
  simp [member_eq_getElem, stalled]

@[simp] theorem stalled_zero : (network.stalled fun _ => 0) = network := by
  have hmembers : (Vector.ofFn fun task => (network.member task).stalled 0) = network.members :=
    Vector.ext fun task htask => by simp [member_eq_getElem]
  simp only [stalled, hmembers]

theorem stalled_stalled (first second : Fin m → ℕ) :
    (network.stalled first).stalled second =
      network.stalled fun task => first task + second task := by
  rw [stalled]
  simp only [member_stalled, Participant.stalled_stalled]
  rfl

theorem sinks_stalled (counts : Fin m → ℕ) :
    (network.stalled counts).members.toList.filterMap Participant.sink? =
      network.members.toList.filterMap Participant.sink? := by
  have hmap : (network.stalled counts).members.toList.map Participant.sink? =
      network.members.toList.map Participant.sink? :=
    List.ext_getElem (by simp) fun task _ _ => by simp [stalled, member_eq_getElem]
  have hsinks := congrArg (List.filterMap id) hmap
  rwa [List.filterMap_map, List.filterMap_map] at hsinks

theorem Deadlocked.stalled (hdead : network.Deadlocked) (counts : Fin m → ℕ) :
    (network.stalled counts).Deadlocked where
  ready_eq := hdead.ready_eq
  underWay task := ⟨(hdead.underWay task).isPending, by simp [(hdead.underWay task).abandoned_eq]⟩
  waiting := hdead.waiting

/-- Without an abandoned operation there is nothing to withdraw. -/
theorem UnderWay.visit (hunderway : network.UnderWay task) :
    network.visit task = .ok (0, network.stalled fun other => if task = other then 1 else 0) := by
  have hnothing : (network.member task).withdraw task network.fabric = .ok none := by
    have habandoned := hunderway.abandoned_eq
    cases hmember : network.member task with
    | node processor =>
        rw [hmember] at habandoned
        change processor.abandoned = none at habandoned
        simp [Participant.withdraw, Node.withdraw, habandoned, pure, Except.pure]
    | source feed => rfl
    | sink store => rfl
  -- only the cycle of the member itself is counted
  have hmembers : network.members.set task (network.member task).stall task.isLt =
      .ofFn fun other => (network.member other).stalled (if task = other then 1 else 0) :=
    Vector.ext fun other hother => by
      by_cases hself : task.val = other
      · simp [hself, ← Participant.stalled_one, Fin.ext_iff, member_eq_getElem]
      · simp [hself, Fin.ext_iff, member_eq_getElem]
  have hinFlight : network.inFlight.set task true task.isLt = network.inFlight :=
    Vector.ext fun other hother => by
      have hpending := hunderway.isPending
      rw [isPending_eq_getElem] at hpending
      by_cases hself : task.val = other
      · subst hself
        simp [hpending]
      · simp [hself]
  rw [Network.visit, if_pos hunderway.isPending, hnothing, ok_bind]
  simp only [put, hmembers, hinFlight]
  rfl

theorem Deadlocked.visitAll (hdead : network.Deadlocked) (tasks : List (Fin m)) :
    network.visitAll tasks = .ok (0, network.stalled fun task => tasks.count task) := by
  induction tasks generalizing network with
  | nil => simp [Network.visitAll]
  | cons task rest ih =>
      simp only [Network.visitAll, (hdead.underWay task).visit, ok_bind, ih (hdead.stalled _),
        stalled_stalled]
      simp [pure, Except.pure, List.count_cons, Nat.add_comm]

/-- A tick of a deadlocked network counts one cycle for every node. -/
theorem Deadlocked.tick (hdead : network.Deadlocked) :
    network.tick = .ok (0, network.stalled fun _ => 1) := by
  have hvisit : network.visitAll (List.finRange m) = .ok (0, network.stalled fun _ => 1) := by
    simp [hdead.visitAll, (List.nodup_finRange m).count]
  obtain ⟨hsettle, hsettleFirst⟩ := settle_of_ready_nil (hdead.stalled fun _ => 1).ready_eq
  unfold Network.tick
  cases network.discipline with
  | lockstep => simp [tickLockstep, hvisit, hsettle, pure, Except.pure]
  | firstSettled =>
      simp [tickFirstSettled, hdead.ready_eq, Network.resumeUpTo, hvisit, hsettleFirst]

/-- What can make a network go on. -/
inductive Advance where
  | tick
  | settle
deriving DecidableEq

/-- Returns the number of steps that settle. -/
def advance (network : Network m n) : Advance → Except Fault (ℕ × Network m n)
  | .tick => network.tick
  | .settle => network.settle

/-- Makes a network go on several times.  Returns the number of steps that settle each
time. -/
def advanceAll (network : Network m n) : List Advance → Except Fault (List ℕ × Network m n)
  | [] => .ok ([], network)
  | first :: rest => do
    let (settled, network) ← network.advance first
    let (others, network) ← network.advanceAll rest
    return (settled :: others, network)

/-- However long a deadlocked network goes on, nothing settles, and of all its data only
the cycle counts of the nodes change. -/
theorem Deadlocked.advanceAll (hdead : network.Deadlocked) (advances : List Advance) :
    network.advanceAll advances =
      .ok (advances.map fun _ => 0, network.stalled fun _ => advances.count .tick) := by
  induction advances generalizing network with
  | nil => simp [Network.advanceAll]
  | cons first rest ih =>
      cases first with
      | tick =>
          simp only [Network.advanceAll, advance, hdead.tick, ok_bind, ih (hdead.stalled _),
            stalled_stalled, List.map_cons, List.count_cons_self, Nat.add_comm 1]
          rfl
      | settle =>
          simp only [Network.advanceAll, advance, (settle_of_ready_nil hdead.ready_eq).1, ok_bind,
            ih hdead, List.map_cons]
          simp [pure, Except.pure]

end Network

/-! ## Deadlocked benches -/

/-- The number of ticks that an operation takes while nothing is collected. -/
def Bench.Operation.ticks (isComplete : Bool) : Bench.Operation m → ℕ
  | .tick => 1
  | .run budget => if isComplete then 0 else budget
  | .settle | .load _ _ => 0

namespace Bench

variable {bench : Bench m n}

/-- The bench after ticks on which the steps of all members went on. -/
def stalled (bench : Bench m n) (count : ℕ) : Bench m n :=
  { bench with network := bench.network.stalled fun _ => count, ticks := bench.ticks + count }

@[simp] theorem stalled_zero : bench.stalled 0 = bench := by
  simp [stalled]

theorem stalled_stalled (first second : ℕ) :
    (bench.stalled first).stalled second = bench.stalled (first + second) := by
  simp [stalled, Network.stalled_stalled, Nat.add_assoc]

@[simp] theorem sinks_stalled (count : ℕ) : (bench.stalled count).sinks = bench.sinks :=
  Network.sinks_stalled fun _ => count

@[simp] theorem isComplete_stalled (count : ℕ) :
    (bench.stalled count).isComplete = bench.isComplete := by
  rw [isComplete, sinks_stalled]
  rfl

end Bench

namespace Network

variable {bench : Bench m n}

theorem Deadlocked.tickUpTo (hdead : bench.network.Deadlocked) (budget : ℕ) :
    bench.tickUpTo budget = .ok (bench.stalled (if bench.isComplete then 0 else budget)) := by
  induction budget generalizing bench with
  | zero => simp [Bench.tickUpTo]
  | succ budget ih =>
      unfold Bench.tickUpTo
      by_cases hcomplete : bench.isComplete = true
      · simp [hcomplete]
      · have htick : bench.tick = .ok (bench.stalled 1) := by
          simp only [Bench.tick, hdead.tick, ok_bind]
          rfl
        have hstalled : (bench.stalled 1).network.Deadlocked := hdead.stalled _
        rw [if_neg hcomplete, if_neg hcomplete, htick, ok_bind, ih hstalled,
          Bench.isComplete_stalled, if_neg hcomplete, Bench.stalled_stalled, Nat.add_comm]

theorem Deadlocked.perform (hdead : bench.network.Deadlocked) {operation : Bench.Operation m}
    (hkeep : ∀ task source, operation ≠ .load task source) :
    bench.perform operation = .ok (bench.stalled (operation.ticks bench.isComplete)) := by
  -- nobody is ready, so there is nothing to settle
  have hsettle : ∀ {bench : Bench m n}, bench.network.Deadlocked → bench.settle = .ok bench := by
    intro bench hdead
    simp only [Bench.settle, (settle_of_ready_nil hdead.ready_eq).1, ok_bind]
    rfl
  cases operation with
  | tick =>
      simp only [Bench.perform, Bench.tick, hdead.tick, ok_bind]
      rfl
  | run budget =>
      have hstalled : (bench.stalled (if bench.isComplete then 0 else budget)).network.Deadlocked :=
        hdead.stalled _
      simp only [Bench.perform, Bench.run, hdead.tickUpTo, ok_bind, hsettle hstalled]
      rfl
  | settle =>
      rw [Bench.perform, hsettle hdead, Bench.Operation.ticks, Bench.stalled_zero]
  | load task source => exact absurd rfl (hkeep task source)

/-- Whatever is done with a deadlocked bench except for loading a program, its ticks are
counted, by it and by its nodes, and nothing else changes. -/
theorem Deadlocked.performAll (hdead : bench.network.Deadlocked)
    {operations : List (Bench.Operation m)}
    (hkeep : ∀ task source, .load task source ∉ operations) :
    bench.performAll operations =
      .ok (bench.stalled (operations.map (·.ticks bench.isComplete)).sum) := by
  induction operations generalizing bench with
  | nil => simp [Bench.performAll]
  | cons first rest ih =>
      have hfirst : ∀ task source, first ≠ .load task source := by
        rintro task source rfl
        exact hkeep task source List.mem_cons_self
      have hstalled : (bench.stalled (first.ticks bench.isComplete)).network.Deadlocked :=
        hdead.stalled _
      rw [Bench.performAll, hdead.perform hfirst, ok_bind,
        ih hstalled fun task source hmem => hkeep task source (List.mem_cons_of_mem _ hmem),
        Bench.isComplete_stalled, Bench.stalled_stalled, List.map_cons, List.sum_cons]

end Network

/-! ## Reachable networks -/

/-- A participant that has not taken part in anything yet. -/
def Participant.IsNew : Participant n → Prop
  | .node processor => processor.IsFresh
  | .source feed => ∃ values output, feed = .ofValues values output
  | .sink store => ∃ input, store = .ofChannel input

theorem Participant.IsNew.atRest {participant : Participant n} (hnew : participant.IsNew)
    {allowed : Fin n → Prop} (hallowed : ∀ k, allowed k) : Network.AtRest participant allowed := by
  cases participant with
  | node processor => exact Node.IsFresh.atRest hnew fun _ _ _ _ k _ => hallowed k
  | source feed =>
      obtain ⟨values, output, rfl⟩ := hnew
      exact ⟨hallowed output, rfl⟩
  | sink store =>
      obtain ⟨input, rfl⟩ := hnew
      exact ⟨hallowed input, rfl⟩

namespace Network

variable {network next : Network m n}

/-- A network of new members on channels with room for all of them, which has then gone
on and been given programs in any order. -/
inductive Reachable : Network m n → Prop where
  | start {discipline : Discipline} {members : Vector (Participant n) m}
      {capacities : Vector ℕ n} (hmembers : ∀ task, (members.get task).IsNew)
      (hroom : ∀ k, capacities.get k + m ≤ 2 ^ 63 - 1) :
      Reachable (.ofMembers discipline members capacities)
  | advance {network next : Network m n} {way : Advance} {settled : ℕ}
      (hreachable : Reachable network) (hadvance : network.advance way = .ok (settled, next)) :
      Reachable next
  | load {network : Network m n} {task : Fin m} {source : String}
      (hreachable : Reachable network) : Reachable (network.load task source)

theorem Reachable.sound (hreachable : network.Reachable) : network.Sound everyone := by
  induction hreachable with
  | start hmembers hroom =>
      refine sound_ofMembers (fun task => ?_) fun k => by simpa [everyone] using hroom k
      exact (hmembers task).atRest fun k => Finset.mem_univ task
  | @advance network next way settled hreachable hadvance ih =>
      cases way with
      | tick => exact ih.tick.of_ok hadvance
      | settle => exact ih.settle.of_ok hadvance
  | load hreachable ih => exact ih.load fun _ _ _ _ _ _ => Finset.mem_univ _

end Network

namespace Bench

variable {bench next : Bench m n}

theorem reachable_of_tick (hreachable : bench.network.Reachable) (htick : bench.tick = .ok next) :
    next.network.Reachable := by
  obtain ⟨⟨settled, network⟩, hnetwork, hnext⟩ := bind_eq_ok.mp htick
  cases hnext
  have hadvance : bench.network.advance .tick = .ok (settled, network) := hnetwork
  exact hreachable.advance hadvance

theorem reachable_of_settle (hreachable : bench.network.Reachable)
    (hsettle : bench.settle = .ok next) : next.network.Reachable := by
  obtain ⟨⟨settled, network⟩, hnetwork, hnext⟩ := bind_eq_ok.mp hsettle
  cases hnext
  have hadvance : bench.network.advance .settle = .ok (settled, network) := hnetwork
  exact hreachable.advance hadvance

theorem reachable_of_tickUpTo (hreachable : bench.network.Reachable) {budget : ℕ}
    (hended : bench.tickUpTo budget = .ok next) : next.network.Reachable := by
  induction budget generalizing bench with
  | zero =>
      cases hended
      exact hreachable
  | succ budget ih =>
      unfold tickUpTo at hended
      split at hended
      · cases hended
        exact hreachable
      · obtain ⟨ticked, htick, hrest⟩ := bind_eq_ok.mp hended
        exact ih (reachable_of_tick hreachable htick) hrest

theorem reachable_of_perform (hreachable : bench.network.Reachable) {operation : Operation m}
    (hperform : bench.perform operation = .ok next) : next.network.Reachable := by
  cases operation with
  | tick => exact reachable_of_tick hreachable hperform
  | settle => exact reachable_of_settle hreachable hperform
  | load task source =>
      cases hperform
      exact hreachable.load
  | run budget =>
      obtain ⟨⟨ticks, last⟩, hrun, hpair⟩ := bind_eq_ok.mp hperform
      cases hpair
      obtain ⟨ended, hended, hrest⟩ := bind_eq_ok.mp hrun
      obtain ⟨settled, hsettle, hpair⟩ := bind_eq_ok.mp hrest
      cases hpair
      exact reachable_of_settle (reachable_of_tickUpTo hreachable hended) hsettle

theorem reachable_of_performAll (hreachable : bench.network.Reachable)
    {operations : List (Operation m)} (hperform : bench.performAll operations = .ok next) :
    next.network.Reachable := by
  induction operations generalizing bench with
  | nil =>
      cases hperform
      exact hreachable
  | cons operation rest ih =>
      obtain ⟨between, hfirst, hrest⟩ := bind_eq_ok.mp hperform
      exact ih (reachable_of_perform hreachable hfirst) hrest

theorem reachable_ofWiring {wiring : Wiring n} (hfresh : ∀ node ∈ wiring.nodes, node.IsFresh)
    (hroom : ∀ k, wiring.capacities.get k + wiring.size ≤ 2 ^ 63 - 1) (suite : Suite)
    (discipline : Discipline) : (ofWiring wiring suite discipline).network.Reachable := by
  refine .start (fun task => ?_) hroom
  have hmem := List.mem_of_getElem? (member_ofWiring wiring suite discipline task)
  change ((ofWiring wiring suite discipline).network.member task).IsNew
  simp only [Wiring.participants, List.mem_append, List.mem_map, List.mem_mapIdx] at hmem
  rcases hmem with (⟨node, hnode, hmember⟩ | ⟨port, hport, hmember⟩) | ⟨k, -, hmember⟩
  · rw [← hmember]
    exact hfresh node hnode
  · rw [← hmember]
    exact ⟨_, _, rfl⟩
  · rw [← hmember]
    exact ⟨_, rfl⟩

end Bench

/-! ## Permanence -/

/-- If nothing settles in a tick, everything has come to a standstill, and from then on
all that changes, in the network and in a bench around it, are the numbers of ticks that
have been counted. -/
theorem Network.Reachable.deadlocked_forever {network next : Network m n}
    (hreachable : network.Reachable) (htick : network.tick = .ok (0, next)) :
    next.Deadlocked ∧
      (∀ advances, next.advanceAll advances =
        .ok (advances.map fun _ => 0, next.stalled fun _ => advances.count .tick)) ∧
      ∀ bench : Bench m n, bench.network = next →
        ∀ operations : List (Bench.Operation m), (∀ task source, .load task source ∉ operations) →
          bench.performAll operations =
            .ok (bench.stalled (operations.map (·.ticks bench.isComplete)).sum) := by
  have hdead := hreachable.sound.deadlocked_of_tick htick
  refine ⟨hdead, hdead.advanceAll, ?_⟩
  rintro bench rfl operations hkeep
  exact hdead.performAll hkeep

/-- In lockstep, a tick is over if nobody is ready after its visits. -/
theorem Network.tick_of_visitAll {network visited : Network m n} {settled : ℕ}
    (hdiscipline : network.discipline = .lockstep)
    (hvisit : network.visitAll (List.finRange m) = .ok (settled, visited))
    (hready : visited.fabric.ready = []) : network.tick = .ok (settled, visited) := by
  simp [tick, hdiscipline, tickLockstep, hvisit, (settle_of_ready_nil hready).1, pure, Except.pure]

/-- A node that reads from one channel and writes to another. -/
def between (name : String) (input output : Fin 4) : Node 4 :=
  .inert name fun
    | .up => some input
    | .down => some output
    | .left | .right => none

/-- Three nodes in a circle that can only wait for one another, and an output that
none of them reaches. -/
def standoff : Wiring 4 where
  capacities := .replicate 4 0
  nodes :=
    [(between "FIRST" 0 1).load "MOV UP, DOWN", (between "SECOND" 1 2).load "MOV UP, DOWN",
      (between "THIRD" 2 0).load "NOP"]
  inputs := []
  outputs := [3]

/-- The third node starts to wait only with its second program.  The value that is
expected never arrives. -/
theorem deadlocked_standoff :
    ∃ bench after : Bench standoff.size 4,
      (Bench.ofWiring standoff ⟨⟨[]⟩, ⟨[(0, [7])]⟩⟩ .lockstep).performAll
        [.load ⟨2, by decide⟩ "MOV UP, DOWN"] = .ok bench ∧
      bench.network.Reachable ∧ bench.network.tick = .ok (0, after.network) ∧
      after.network.Deadlocked ∧
      after.network.advanceAll [.tick, .settle, .tick] =
        .ok ([0, 0, 0], after.network.stalled fun _ => 2) ∧
      after.performAll [.tick, .settle, .run 5] =
        .ok (after.stalled (1 + if after.isComplete then 0 else 5)) := by
  have hfresh : ∀ node ∈ standoff.nodes, node.IsFresh := by
    intro node hmem
    simp only [standoff, List.mem_cons, List.not_mem_nil, or_false] at hmem
    rcases hmem with hnode | hnode | hnode
    · exact ⟨_, _, Or.inr ⟨_, hnode⟩⟩
    · exact ⟨_, _, Or.inr ⟨_, hnode⟩⟩
    · exact ⟨_, _, Or.inr ⟨_, hnode⟩⟩
  -- the bench gets a name, so that it is evaluated in one place only
  obtain ⟨bench, hbench⟩ : ∃ bench, (Bench.ofWiring standoff ⟨⟨[]⟩, ⟨[(0, [7])]⟩⟩ .lockstep).load
    ⟨2, by decide⟩ "MOV UP, DOWN" = bench := ⟨_, rfl⟩
  have hperform : (Bench.ofWiring standoff ⟨⟨[]⟩, ⟨[(0, [7])]⟩⟩ .lockstep).performAll
      [.load ⟨2, by decide⟩ "MOV UP, DOWN"] = .ok bench := by
    rw [← hbench]
    rfl
  have hreachable : bench.network.Reachable := Bench.reachable_of_performAll
    (Bench.reachable_ofWiring hfresh (by decide) ⟨⟨[]⟩, ⟨[(0, [7])]⟩⟩ .lockstep) hperform
  have hvisited : (bench.network.visitAll (List.finRange standoff.size)).toOption.any
      (fun (settled, next) => settled == 0 && next.fabric.ready == []) = true := by
    rw [← hbench]
    decide +kernel
  obtain ⟨⟨settled, next⟩, hvisit, hidle⟩ := exists_ok_of_any hvisited
  obtain ⟨hzero, hready⟩ := Bool.and_eq_true_iff.mp hidle
  obtain rfl := eq_of_beq hzero
  have hready := eq_of_beq hready
  have hlockstep : bench.network.discipline = .lockstep := by
    rw [← hbench]
    rfl
  -- the circle is closed in the first tick
  have htick := Network.tick_of_visitAll hlockstep hvisit hready
  obtain ⟨hdead, hadvance, hbenches⟩ := hreachable.deadlocked_forever htick
  refine ⟨bench, { bench with network := next, ticks := bench.ticks + 1 }, hperform, hreachable,
    htick, hdead, hadvance [.tick, .settle, .tick], ?_⟩
  have hperformed := hbenches { bench with network := next, ticks := bench.ticks + 1 } rfl
    [.tick, .settle, .run 5] (by simp)
  simpa [Bench.Operation.ticks] using hperformed

end NodeGrid

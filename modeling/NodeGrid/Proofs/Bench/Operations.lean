import NodeGrid.Bench
import NodeGrid.Proofs.Network.Soundness

/-!
# What can be done with a bench

Between two looks at a bench its user ticks it, runs it, settles it or gives one
of its nodes a new program, any number of times and in any order.  Each of these
operations keeps the network of the bench sound (`perform_sound`).  So whatever
is done with a bench of new nodes, nothing faults (`performAll_ofWiring`) and the
network stays consistent (`consistent_of_performAll`), provided that each channel
has room for its capacity and all participants.
-/

namespace NodeGrid

variable {m n : ℕ}

/-- A node that has not taken part in anything yet, with or without a program. -/
def Node.IsFresh (node : Node n) : Prop :=
  ∃ name ports, node = .inert name ports ∨ ∃ source, node = (Node.inert name ports).load source

/-- A new node that gets another program is still new. -/
theorem Node.IsFresh.load {node : Node n} (hfresh : node.IsFresh) (source : String) :
    (node.load source).IsFresh := by
  obtain ⟨name, ports, rfl | ⟨earlier, rfl⟩⟩ := hfresh
  · exact ⟨name, ports, Or.inr ⟨source, rfl⟩⟩
  · exact ⟨name, ports, Or.inr ⟨source, rfl⟩⟩

theorem Node.IsFresh.atRest {node : Node n} {allowed : Fin n → Prop} (hfresh : node.IsFresh)
    (hallowed : ∀ instruction ∈ node.program, ∀ port ∈ instruction.ports,
      ∀ k, node.ports port = some k → allowed k) :
    Network.AtRest (.node node) allowed := by
  rcases hfresh with ⟨name, ports, rfl | ⟨source, rfl⟩⟩
  · exact Node.sound_inert name ports
  · obtain ⟨hsound, hengagement⟩ := Node.sound_inert name ports
    obtain ⟨hloaded, hsame⟩ := hsound.load hallowed
    exact ⟨hloaded, hsame.trans hengagement⟩

namespace Bench

/-- What a user can do with a bench. -/
inductive Operation (m : ℕ) where
  | tick
  | run (budget : ℕ)
  | settle
  | load (task : Fin m) (source : String)

/-- What an operation makes of a bench. -/
def perform (bench : Bench m n) : Operation m → Except Fault (Bench m n)
  | .tick => bench.tick
  | .run budget => do
    let (_, bench) ← bench.run budget
    return bench
  | .settle => bench.settle
  | .load task source => .ok (bench.load task source)

/-- Performs operations one after the other. -/
def performAll (bench : Bench m n) : List (Operation m) → Except Fault (Bench m n)
  | [] => .ok bench
  | operation :: rest => do
    let bench ← bench.perform operation
    bench.performAll rest

variable {bench : Bench m n} {users : Fin n → Finset (Fin m)}

theorem performAll_append {last : Bench m n} {first second : List (Operation m)} :
    bench.performAll (first ++ second) = .ok last ↔
      ∃ between, bench.performAll first = .ok between ∧ between.performAll second = .ok last := by
  induction first generalizing bench with
  | nil => simp [performAll]
  | cons operation rest ih =>
      simp only [List.cons_append, performAll, bind_eq_ok, ih]
      constructor
      · rintro ⟨next, hnext, between, hbetween, hlast⟩
        exact ⟨between, ⟨next, hnext, hbetween⟩, hlast⟩
      · rintro ⟨between, ⟨next, hnext, hbetween⟩, hlast⟩
        exact ⟨next, hnext, between, hbetween, hlast⟩

theorem tick_sound (hsound : bench.network.Sound users) :
    Yields bench.tick fun next => next.network.Sound users := by
  refine hsound.tick.bind ?_
  rintro ⟨settled, network⟩ hnetwork
  exact yields_ok.mpr hnetwork

theorem settle_sound (hsound : bench.network.Sound users) :
    Yields bench.settle fun next => next.network.Sound users := by
  refine hsound.settle.bind ?_
  rintro ⟨settled, network⟩ hnetwork
  exact yields_ok.mpr hnetwork

theorem tickUpTo_sound (hsound : bench.network.Sound users) (budget : ℕ) :
    Yields (bench.tickUpTo budget) fun next => next.network.Sound users := by
  induction budget generalizing bench with
  | zero => exact yields_ok.mpr hsound
  | succ budget ih =>
      unfold tickUpTo
      by_cases hcomplete : bench.isComplete = true
      · rw [if_pos hcomplete]
        exact yields_ok.mpr hsound
      · rw [if_neg hcomplete]
        exact (tick_sound hsound).bind fun next hnext => ih hnext

theorem run_sound (hsound : bench.network.Sound users) (budget : ℕ) :
    Yields (bench.run budget) fun (_, next) => next.network.Sound users := by
  refine (tickUpTo_sound hsound budget).bind ?_
  intro ended hended
  exact (settle_sound hended).bind fun settled hsettled => yields_ok.mpr hsettled

/-- An operation keeps the network sound, and so nothing faults in it, if new programs
do. -/
theorem perform_sound (hsound : bench.network.Sound users) (operation : Operation m)
    (hload : ∀ task source, operation = .load task source →
      (bench.network.load task source).Sound users) :
    Yields (bench.perform operation) fun next => next.network.Sound users := by
  cases operation with
  | tick => exact tick_sound hsound
  | run budget =>
      refine (run_sound hsound budget).bind ?_
      rintro ⟨ticks, next⟩ hnext
      exact yields_ok.mpr hnext
  | settle => exact settle_sound hsound
  | load task source => exact yields_ok.mpr (hload task source rfl)

theorem performAll_sound (hsound : bench.network.Sound Network.everyone) (operations : List (Operation m)) :
    Yields (bench.performAll operations) fun next => next.network.Sound Network.everyone := by
  induction operations generalizing bench with
  | nil => exact yields_ok.mpr hsound
  | cons operation rest ih =>
      refine (perform_sound hsound operation ?_).bind fun next hnext => ih hnext
      exact fun task source _ => hsound.load fun _ _ _ _ _ _ => Finset.mem_univ task

/-! ## New benches -/

section Start

variable {wiring : Wiring n}

/-- Who takes part under which number. -/
theorem participants_cases {suite : Suite} {index : ℕ} {participant : Participant n}
    (hindex : (wiring.participants suite)[index]? = some participant) :
    (∃ node, wiring.nodes[index]? = some node ∧ participant = .node node) ∨
      (∃ port k, index = wiring.nodes.length + port ∧ wiring.inputs[port]? = some k ∧
        participant = .source (.ofValues (suite.inputs.values port) k)) ∨
      ∃ port k, index = wiring.nodes.length + wiring.inputs.length + port ∧
        wiring.outputs[port]? = some k ∧ participant = .sink (.ofChannel k) := by
  simp only [Wiring.participants, List.getElem?_append, List.length_append, List.length_map,
    List.length_mapIdx, List.getElem?_map, List.getElem?_mapIdx] at hindex
  split at hindex
  · split at hindex
    · obtain ⟨node, hnode, rfl⟩ := Option.map_eq_some_iff.mp hindex
      exact Or.inl ⟨node, hnode, rfl⟩
    · obtain ⟨k, hk, rfl⟩ := Option.map_eq_some_iff.mp hindex
      exact Or.inr (Or.inl ⟨_, k, by omega, hk, rfl⟩)
  · obtain ⟨k, hk, rfl⟩ := Option.map_eq_some_iff.mp hindex
    exact Or.inr (Or.inr ⟨_, k, by omega, hk, rfl⟩)

theorem atRest_of_mem_participants (hfresh : ∀ node ∈ wiring.nodes, node.IsFresh) (suite : Suite) :
    ∀ participant ∈ wiring.participants suite, ∀ allowed : Fin n → Prop,
      (∀ k, participant.Uses k → allowed k) → Network.AtRest participant allowed := by
  intro participant hmem allowed hallowed
  simp only [Wiring.participants, List.mem_append, List.mem_map, List.mem_mapIdx] at hmem
  rcases hmem with (⟨node, hnode, rfl⟩ | ⟨port, hport, rfl⟩) | ⟨k, -, rfl⟩
  · refine (hfresh node hnode).atRest fun instruction hinstruction port hport k hk => ?_
    exact hallowed k ⟨instruction, hinstruction, port, hport, hk⟩
  · exact ⟨hallowed _ rfl, rfl⟩
  · exact ⟨hallowed _ rfl, rfl⟩

/-- The member with the given task of a new bench. -/
theorem member_ofWiring (wiring : Wiring n) (suite : Suite) (discipline : Discipline)
    (task : Fin wiring.size) :
    (wiring.participants suite)[task.val]? =
      some ((ofWiring wiring suite discipline).network.member task) := by
  have htask : task.val < (wiring.participants suite).length := by
    rw [wiring.length_participants suite]
    exact task.isLt
  rw [List.getElem?_eq_getElem htask]
  simp [ofWiring, Network.ofMembers, Network.member_eq_getElem]

theorem engaged_ofWiring (hfresh : ∀ node ∈ wiring.nodes, node.IsFresh) (suite : Suite)
    (discipline : Discipline) (task : Fin wiring.size) :
    (ofWiring wiring suite discipline).network.engaged task = none :=
  (atRest_of_mem_participants hfresh suite _
    (List.mem_of_getElem? (member_ofWiring wiring suite discipline task)) (fun _ => True)
    fun _ _ => trivial).2

theorem channel_ofWiring (wiring : Wiring n) (suite : Suite) (discipline : Discipline) (k : Fin n) :
    (ofWiring wiring suite discipline).network.fabric.channel k =
      .ofCapacity (wiring.capacities.get k) := by
  have hget : wiring.capacities.get k = wiring.capacities[k.val] := rfl
  simp [ofWiring, Network.ofMembers, Fabric.channel, Fabric.ofCapacities, hget]

/-- A new bench is sound if every channel has room for its capacity and its users. -/
theorem sound_ofWiring_of_uses {users : Fin n → Finset (Fin wiring.size)}
    (hfresh : ∀ node ∈ wiring.nodes, node.IsFresh) {suite : Suite} {discipline : Discipline}
    (huses : ∀ task k, ((ofWiring wiring suite discipline).network.member task).Uses k → task ∈ users k)
    (hroom : ∀ k, wiring.capacities.get k + (users k).card ≤ 2 ^ 63 - 1) :
    (ofWiring wiring suite discipline).network.Sound users := by
  refine Network.sound_ofMembers (fun task => ?_) hroom
  have hmember := member_ofWiring wiring suite discipline task
  exact atRest_of_mem_participants hfresh suite _ (List.mem_of_getElem? hmember) _ (huses task)

theorem sound_ofWiring (hfresh : ∀ node ∈ wiring.nodes, node.IsFresh)
    (hroom : ∀ k, wiring.capacities.get k + wiring.size ≤ 2 ^ 63 - 1) (suite : Suite)
    (discipline : Discipline) :
    (ofWiring wiring suite discipline).network.Sound Network.everyone :=
  sound_ofWiring_of_uses hfresh (fun task _ _ => Finset.mem_univ task)
    fun k => by simpa [Network.everyone] using hroom k

/-- Whatever is done with a bench of new nodes, nothing faults. -/
theorem performAll_ofWiring (hfresh : ∀ node ∈ wiring.nodes, node.IsFresh)
    (hroom : ∀ k, wiring.capacities.get k + wiring.size ≤ 2 ^ 63 - 1) (suite : Suite)
    (discipline : Discipline) (operations : List (Operation wiring.size)) :
    ∃ bench, (ofWiring wiring suite discipline).performAll operations = .ok bench := by
  obtain ⟨bench, hperform, -⟩ :=
    performAll_sound (sound_ofWiring hfresh hroom suite discipline) operations
  exact ⟨bench, hperform⟩

/-- A node between a source and a sink, and nothing in between that could hold a
value. -/
def relay : Wiring 2 where
  capacities := #v[0, 0]
  nodes :=
    [(Node.inert "RELAY" fun
      | .up => some 0
      | .down => some 1
      | .left | .right => none).load "MOV UP, DOWN"]
  inputs := [0]
  outputs := [1]

theorem isFresh_relay : ∀ node ∈ relay.nodes, node.IsFresh := by
  intro node hmem
  rw [relay, List.mem_singleton] at hmem
  exact ⟨_, _, Or.inr ⟨_, hmem⟩⟩

/-- The node of the relay gets a new program while its value is on its way. -/
theorem performAll_relay :
    (∀ node ∈ relay.nodes, node.IsFresh) ∧
      (∀ k, relay.capacities.get k + relay.size ≤ 2 ^ 63 - 1) ∧
      ∃ bench, (ofWiring relay ⟨⟨[(0, [7, 8])]⟩, ⟨[(0, [7, 8])]⟩⟩ .firstSettled).performAll
        [.tick, .load ⟨0, by decide⟩ "ADD UP", .tick, .settle, .run 5] = .ok bench :=
  ⟨isFresh_relay, by decide, performAll_ofWiring isFresh_relay (by decide) _ _ _⟩

/-- Whatever is done with a bench of new nodes, its network stays consistent. -/
theorem consistent_of_performAll (hfresh : ∀ node ∈ wiring.nodes, node.IsFresh)
    (hroom : ∀ k, wiring.capacities.get k + wiring.size ≤ 2 ^ 63 - 1) {suite : Suite}
    {discipline : Discipline} {operations : List (Operation wiring.size)}
    {bench : Bench wiring.size n}
    (hperform : (ofWiring wiring suite discipline).performAll operations = .ok bench) :
    bench.network.Consistent := by
  obtain ⟨reached, hreached, hsound⟩ :=
    performAll_sound (sound_ofWiring hfresh hroom suite discipline) operations
  rw [hperform] at hreached
  cases hreached
  exact hsound.consistent

/-- The port operation that a replaced program of a member left waiting. -/
def abandoned? {m : ℕ} (bench : Bench m n) (task : Fin m) : Option PortOperation :=
  (bench.network.member task).node?.bind Node.abandoned

/-- The relay is consistent with a new program while its node still waits with the old one. -/
theorem consistent_relay :
    (∀ node ∈ relay.nodes, node.IsFresh) ∧
      (∀ k, relay.capacities.get k + relay.size ≤ 2 ^ 63 - 1) ∧
      ∃ bench, (ofWiring relay ⟨⟨[(0, [7, 8])]⟩, ⟨[(0, [7, 8])]⟩⟩ .firstSettled).performAll
        [.tick, .load ⟨0, by decide⟩ "ADD UP"] = .ok bench ∧
        bench.abandoned? ⟨0, by decide⟩ = some (.read .up) ∧ bench.network.isPending ⟨0, by decide⟩ ∧
        bench.network.Consistent := by
  have hroom : ∀ k, relay.capacities.get k + relay.size ≤ 2 ^ 63 - 1 := by decide
  have hrun : ((ofWiring relay ⟨⟨[(0, [7, 8])]⟩, ⟨[(0, [7, 8])]⟩⟩ .firstSettled).performAll
      [.tick, .load ⟨0, by decide⟩ "ADD UP"]).toOption.any (fun bench =>
        bench.abandoned? ⟨0, by decide⟩ == some (.read .up) &&
          bench.network.isPending ⟨0, by decide⟩) = true := by
    decide +kernel
  obtain ⟨bench, hperform, hwaits⟩ := exists_ok_of_any hrun
  obtain ⟨habandoned, hpending⟩ := Bool.and_eq_true_iff.mp hwaits
  exact ⟨isFresh_relay, hroom, bench, hperform, eq_of_beq habandoned, hpending,
    consistent_of_performAll isFresh_relay hroom hperform⟩

end Start

end Bench

end NodeGrid

import NodeGrid.Proofs.Assembly.RoundTrip
import NodeGrid.Proofs.Bench.Confluence
import NodeGrid.Proofs.Network.Twins

/-!
# Programs that are optimised in place

A node may get its optimised program instead of the original if that is not shorter, as
is the case for every program with a relative jump.  On no bench can this be told by
anything but the programs themselves: whatever the other nodes do, whoever shares a
channel with whom, and in whatever discipline, tick by tick the same happens
(`keepsStep_optimize`).  Programs that are loaded later may be exchanged too
(`Operation.Exchanges`).

Two such benches have networks that mirror each other, so every operation comes to the
same end on both (`Mirrors.performAll`).  If one of them faults, so does the other.
-/

namespace NodeGrid

open List (Forall₂)

variable {n : ℕ}

/-! ## Exchanged programs -/

/-- The second node agrees with the first and has its optimised program, which is not
shorter, or the same program.  No operation of them is left in a channel. -/
structure Node.Exchanges (node other : Node n) : Prop extends node.Agrees other where
  isFree : node.IsFree
  program : other.program = node.program ∨
    other.program = node.program.optimize ∧ other.program.length = node.program.length

theorem Node.Exchanges.twins {node other : Node n} (hexchanges : node.Exchanges other) :
    node.Twins other where
  toAgrees := hexchanges.toAgrees
  parallels := by
    rcases hexchanges.program with hsame | ⟨hoptimized, hlength⟩
    · rw [hsame]
      exact .refl _
    · rw [hoptimized] at hlength ⊢
      exact Program.parallels_optimize hlength

/-- The wirings differ in the programs of some nodes at most. -/
structure Wiring.Exchanges (wiring other : Wiring n) : Prop where
  nodes : Forall₂ Node.Exchanges wiring.nodes other.nodes
  capacities_eq : other.capacities = wiring.capacities
  inputs_eq : other.inputs = wiring.inputs
  outputs_eq : other.outputs = wiring.outputs

theorem Wiring.Exchanges.size_eq {wiring other : Wiring n} (hexchanges : wiring.Exchanges other) :
    wiring.size = other.size := by
  rw [size, size, hexchanges.nodes.length_eq, hexchanges.inputs_eq, hexchanges.outputs_eq]

theorem Wiring.Exchanges.participants {wiring other : Wiring n}
    (hexchanges : wiring.Exchanges other) (suite : Suite) :
    Forall₂ (Participant.Mirrors false) (wiring.participants suite)
      (other.participants suite) := by
  unfold Wiring.participants
  rw [hexchanges.inputs_eq, hexchanges.outputs_eq]
  refine List.rel_append (List.rel_append ?_ (List.forall₂_same.mpr ?_))
    (List.forall₂_same.mpr ?_)
  · rw [List.forall₂_map_left_iff, List.forall₂_map_right_iff]
    exact hexchanges.nodes.imp fun _ _ hnode => .node (hnode.twins.mirrors hnode.isFree)
  · intro participant hmem
    obtain ⟨port, hport, rfl⟩ := List.mem_mapIdx.mp hmem
    exact .source _
  · intro participant hmem
    obtain ⟨k, -, rfl⟩ := List.mem_map.mp hmem
    exact .sink _

namespace Bench

/-- The same operation, perhaps with another text for the program that is loaded. -/
inductive Operation.Exchanges {m l : ℕ} : Operation m → Operation l → Prop where
  | tick : Exchanges .tick .tick
  | run (budget : ℕ) : Exchanges (.run budget) (.run budget)
  | settle : Exchanges .settle .settle
  | load {task : Fin m} {late : Fin l} {text lateText : String} (htask : task.val = late.val)
      (hreplaces : Node.Replaces text lateText) : Exchanges (.load task text) (.load late lateText)

/-- The benches are the same but for the programs of their nodes: in the data of each
node, in all channels with what waits there, in who is ready, and in what has been sent
and collected. -/
structure KeepsStep {m l : ℕ} (bench : Bench m n) (other : Bench l n) : Prop where
  size_eq : m = l
  nodes : Forall₂ Node.Agrees bench.nodes other.nodes
  fabric_heq : HEq other.network.fabric bench.network.fabric
  inFlight_eq : other.network.inFlight.toList = bench.network.inFlight.toList
  sources_eq : other.sources = bench.sources
  sinks_eq : other.sinks = bench.sinks
  ticks_eq : other.ticks = bench.ticks
  evaluation_eq : other.evaluation = bench.evaluation

/-! ## Benches that mirror each other -/

variable {m : ℕ}

/-- The benches differ only in the programs of nodes that are twins. -/
structure Mirrors (bench other : Bench m n) : Prop where
  network : bench.network.Mirrors other.network
  expected_eq : other.expected = bench.expected
  ticks_eq : other.ticks = bench.ticks

variable {bench other : Bench m n}

/-- What is the same for members with the same task is the same on both benches. -/
theorem Mirrors.filterMap_eq {α : Type} (hmirrors : bench.Mirrors other)
    {pick : Participant n → Option α}
    (hpick : ∀ {inFlight : Bool} {participant late : Participant n},
      participant.Mirrors inFlight late → pick late = pick participant) :
    other.network.members.toList.filterMap pick =
      bench.network.members.toList.filterMap pick := by
  rw [← List.forall₂_eq_eq_eq]
  refine forall₂_filterMap_members rfl fun p q hpq => ?_
  obtain rfl := Fin.ext hpq
  rw [hpick (hmirrors.network.members p)]
  cases pick (bench.network.member p) with
  | none => exact .none
  | some value => exact .some rfl

theorem Mirrors.sources_eq (hmirrors : bench.Mirrors other) : other.sources = bench.sources :=
  hmirrors.filterMap_eq Participant.Mirrors.source?_eq

theorem Mirrors.sinks_eq (hmirrors : bench.Mirrors other) : other.sinks = bench.sinks :=
  hmirrors.filterMap_eq Participant.Mirrors.sink?_eq

theorem Mirrors.isComplete_eq (hmirrors : bench.Mirrors other) :
    other.isComplete = bench.isComplete := by
  rw [isComplete, isComplete, hmirrors.sinks_eq, hmirrors.expected_eq]

theorem Mirrors.keepsStep (hmirrors : bench.Mirrors other) : bench.KeepsStep other where
  size_eq := rfl
  nodes := forall₂_filterMap_members rfl fun p q hpq => by
    obtain rfl := Fin.ext hpq
    exact (hmirrors.network.members p).rel_node?
  fabric_heq := heq_of_eq hmirrors.network.fabric_eq
  inFlight_eq := congrArg Vector.toList hmirrors.network.inFlight_eq
  sources_eq := hmirrors.sources_eq
  sinks_eq := hmirrors.sinks_eq
  ticks_eq := hmirrors.ticks_eq
  evaluation_eq := by
    rw [evaluation, evaluation, hmirrors.sources_eq, hmirrors.sinks_eq, hmirrors.ticks_eq]

/-! ## Operations -/

theorem Mirrors.tick (hmirrors : bench.Mirrors other) : SameEnd Mirrors bench.tick other.tick := by
  refine hmirrors.network.tick.bind fun _ _ hsettles => ?_
  cases hsettles with
  | intro hnetwork =>
      exact .ok ⟨hnetwork, hmirrors.expected_eq, congrArg (· + 1) hmirrors.ticks_eq⟩

theorem Mirrors.settle (hmirrors : bench.Mirrors other) :
    SameEnd Mirrors bench.settle other.settle := by
  refine hmirrors.network.settle.bind fun _ _ hsettles => ?_
  cases hsettles with
  | intro hnetwork => exact .ok ⟨hnetwork, hmirrors.expected_eq, hmirrors.ticks_eq⟩

theorem Mirrors.tickUpTo (hmirrors : bench.Mirrors other) (budget : ℕ) :
    SameEnd Mirrors (bench.tickUpTo budget) (other.tickUpTo budget) := by
  induction budget generalizing bench other with
  | zero => exact .ok hmirrors
  | succ budget ih =>
      unfold Bench.tickUpTo
      rw [hmirrors.isComplete_eq]
      by_cases hcomplete : bench.isComplete = true
      · rw [if_pos hcomplete, if_pos hcomplete]
        exact .ok hmirrors
      · rw [if_neg hcomplete, if_neg hcomplete]
        exact hmirrors.tick.bind fun _ _ hnext => ih hnext

/-- A run takes as many ticks on both benches. -/
theorem Mirrors.run (hmirrors : bench.Mirrors other) (budget : ℕ) :
    SameEnd (fun first second => first.1 = second.1 ∧ first.2.Mirrors second.2)
      (bench.run budget) (other.run budget) := by
  refine (hmirrors.tickUpTo budget).bind fun ended late hended => ?_
  refine hended.settle.bind fun settled last hsettled => .ok ⟨?_, hsettled⟩
  rw [hended.ticks_eq, hmirrors.ticks_eq]

theorem Mirrors.perform (hmirrors : bench.Mirrors other) {operation late : Operation m}
    (hexchanges : operation.Exchanges late) :
    SameEnd Mirrors (bench.perform operation) (other.perform late) := by
  cases hexchanges with
  | tick => exact hmirrors.tick
  | run budget => exact (hmirrors.run budget).bind fun _ _ hpair => .ok hpair.2
  | settle => exact hmirrors.settle
  | load htask hreplaces =>
      obtain rfl := Fin.ext htask
      exact .ok ⟨hmirrors.network.load _ hreplaces, hmirrors.expected_eq, hmirrors.ticks_eq⟩

theorem Mirrors.performAll (hmirrors : bench.Mirrors other) {operations others : List (Operation m)}
    (hexchanges : Forall₂ Operation.Exchanges operations others) :
    SameEnd Mirrors (bench.performAll operations) (other.performAll others) := by
  induction hexchanges generalizing bench other with
  | nil => exact .ok hmirrors
  | cons hoperation hrest ih =>
      exact (hmirrors.perform hoperation).bind fun _ _ hnext => ih hnext

/-- Networks of members that mirror each other can be told apart by nothing that is done
with them. -/
theorem sameEnd_ofMembers {l : ℕ} (hsize : m = l) (members : Vector (Participant n) m)
    (others : Vector (Participant n) l)
    (hmembers : Forall₂ (Participant.Mirrors false) members.toList others.toList)
    (discipline : Discipline) (capacities : Vector ℕ n) (expected : List ℕ)
    {operations : List (Operation m)} {later : List (Operation l)}
    (hexchanges : Forall₂ Operation.Exchanges operations later) :
    SameEnd KeepsStep
      (performAll ⟨.ofMembers discipline members capacities, expected, 0⟩ operations)
      (performAll ⟨.ofMembers discipline others capacities, expected, 0⟩ later) := by
  subst hsize
  have hmirrors : Mirrors ⟨.ofMembers discipline members capacities, expected, 0⟩
      ⟨.ofMembers discipline others capacities, expected, 0⟩ := by
    refine ⟨⟨rfl, rfl, rfl, fun task => ?_⟩, rfl, rfl⟩
    -- at the start nobody is in flight
    have hidle : (Network.ofMembers discipline members capacities).isPending task = false := by
      simp [Network.ofMembers, Network.isPending_eq_getElem]
    have htask := hmembers.get (i := task.val) (by simp) (by simp)
    rw [hidle]
    simpa [Network.member_eq_getElem, Network.ofMembers] using htask
  refine (hmirrors.performAll hexchanges).mono ?_
  exact fun _ _ hlast => hlast.keepsStep

/-- A program with a relative jump is optimised in place.  When programs are exchanged for
ones that have been optimised in place, every run stays the same tick by tick. -/
theorem keepsStep_optimize :
    (∀ code : Program, (∃ source, .unary .jro source ∈ code) →
      code.optimize.length = code.length) ∧
    ∀ {n : ℕ} {wiring other : Wiring n}, wiring.Exchanges other →
      ∀ (suite : Suite) (discipline : Discipline) {operations : List (Operation wiring.size)}
        {later : List (Operation other.size)}, Forall₂ Operation.Exchanges operations later →
          SameEnd KeepsStep ((ofWiring wiring suite discipline).performAll operations)
            ((ofWiring other suite discipline).performAll later) := by
  constructor
  · rintro code ⟨source, hmem⟩
    exact Program.length_optimize_of_any_isRelativeJump (List.any_eq_true.mpr ⟨_, hmem, rfl⟩)
  · intro n wiring other hexchanges suite discipline operations later hlater
    have hsame := sameEnd_ofMembers hexchanges.size_eq
      ⟨(wiring.participants suite).toArray, by simp [wiring.length_participants suite]⟩
      ⟨(other.participants suite).toArray, by simp [other.length_participants suite]⟩
      (hexchanges.participants suite) discipline wiring.capacities
      (wiring.outputs.mapIdx fun port _ => (suite.outputs.values port).length) hlater
    -- the benches differ only in their participants
    have hstart : ofWiring other suite discipline =
        ⟨.ofMembers discipline ⟨(other.participants suite).toArray,
          by simp [other.length_participants suite]⟩ wiring.capacities,
          wiring.outputs.mapIdx fun port _ => (suite.outputs.values port).length, 0⟩ := by
      rw [ofWiring]
      simp only [hexchanges.capacities_eq, hexchanges.outputs_eq]
    rw [hstart]
    exact hsame

/-! ## A relay that lowers its values -/

/-- The relay with another program. -/
def relayWith (text : String) : Wiring 2 :=
  { relay with nodes := relay.nodes.map fun node => node.load text }

theorem isFresh_relayWith (text : String) : ∀ node ∈ (relayWith text).nodes, node.IsFresh := by
  intro node hmem
  obtain ⟨original, horiginal, rfl⟩ := List.mem_map.mp hmem
  exact (isFresh_relay original horiginal).load text

/-- Passes on each value less one, and starts again with a relative jump. -/
def lowering : Program :=
  [.move (.register (.port .up)) .acc, .unary .sub (.immediate 1),
    .move (.register .acc) (.port .down), .unary .jro (.immediate (-3))]

theorem length_optimize_lowering : lowering.optimize.length = lowering.length :=
  Program.length_optimize_of_any_isRelativeJump (by decide)

theorem optimize_lowering : lowering.optimize = [.move (.register (.port .up)) .acc,
    .unary .add (.immediate (-1)), .move (.register .acc) (.port .down),
    .unary .jro (.immediate (-3))] := by
  rw [Program.optimize_eq_map_simplified length_optimize_lowering]
  rfl

theorem compile_lowering :
    Assembly.compile lowering.text = .ok ⟨lowering, List.range lowering.length⟩ := by
  refine (Assembly.compile_text_eq lowering).trans (Assembly.compileText_written ?_)
  simp [lowering, Instruction.FitsWord, Instruction.jumpTarget?]

theorem compile_optimize_lowering : Assembly.compile lowering.optimize.text =
    .ok ⟨lowering.optimize, List.range lowering.optimize.length⟩ :=
  (Assembly.compile_text_eq _).trans
    (Assembly.compileText_written (Program.fitsWord_of_mem_optimize (by decide)))

theorem exchanges_relayWith :
    (relayWith lowering.text).Exchanges (relayWith lowering.optimize.text) where
  nodes := by
    refine .cons ⟨(Node.Agrees.refl _).load _ _, Node.IsFree.load ⟨rfl, rfl⟩ _, Or.inr ?_⟩ .nil
    rw [Node.program_load_of_compile _ compile_lowering,
      Node.program_load_of_compile _ compile_optimize_lowering, optimize_lowering,
      if_pos (by decide), if_pos (by decide), optimize_lowering]
    exact ⟨rfl, rfl⟩
  capacities_eq := rfl
  inputs_eq := rfl
  outputs_eq := rfl

/-- The relay is given one program and its optimised form, and then the same once more
while its node holds a value that it has not passed on yet. -/
theorem keepsStep_lowering :
    lowering.optimize.length = lowering.length ∧
      (relayWith lowering.text).Exchanges (relayWith lowering.optimize.text) ∧
      ∃ bench other,
        (ofWiring (relayWith lowering.text) ⟨⟨[(0, [7, 8])]⟩, ⟨[(0, [6, 7])]⟩⟩ .lockstep).performAll
          [.tick, .load ⟨0, by decide⟩ lowering.text, .run 20] = .ok bench ∧
        (ofWiring (relayWith lowering.optimize.text) ⟨⟨[(0, [7, 8])]⟩, ⟨[(0, [6, 7])]⟩⟩
          .lockstep).performAll
          [.tick, .load ⟨0, by decide⟩ lowering.optimize.text, .run 20] = .ok other ∧
        bench.KeepsStep other := by
  have hlength := keepsStep_optimize.1 lowering ⟨.immediate (-3), by simp [lowering]⟩
  -- the load is exchanged as well, by the same pair of programs
  have hload : (Operation.load ⟨0, by decide⟩ lowering.text :
      Operation (relayWith lowering.text).size).Exchanges
        (.load ⟨0, by decide⟩ lowering.optimize.text :
          Operation (relayWith lowering.optimize.text).size) :=
    .load rfl (.optimized compile_lowering compile_optimize_lowering rfl hlength)
  have hsame := keepsStep_optimize.2 exchanges_relayWith ⟨⟨[(0, [7, 8])]⟩, ⟨[(0, [6, 7])]⟩⟩
    .lockstep (.cons .tick (.cons hload (.cons (.run 20) .nil)))
  obtain ⟨bench, hbench⟩ := performAll_ofWiring (isFresh_relayWith lowering.text) (by decide)
    ⟨⟨[(0, [7, 8])]⟩, ⟨[(0, [6, 7])]⟩⟩ .lockstep
    [.tick, .load ⟨0, by decide⟩ lowering.text, .run 20]
  rw [hbench] at hsame
  rcases hsame.exists_of with ⟨value, other, hvalue, hother, hkeeps⟩ | ⟨broken, hbroken, -⟩
  · cases hvalue
    exact ⟨hlength, exchanges_relayWith, bench, other, hbench, hother, hkeeps⟩
  · cases hbroken

end Bench

end NodeGrid

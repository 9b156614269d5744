import NodeGrid.Proofs.Bench.Adder
import NodeGrid.Proofs.Layout.Flow

/-!
# The adder

Two nodes side by side, of which the left one adds what comes in above it and what the
right one hands over (`Layout.adder`).  The left node is an adder in the sense of
`Bench.IsAdder`, so that the left output port shows the sums of the two lists of values, one
in every third tick, and the right one shows nothing (`sums_of_adder`).
-/

namespace NodeGrid.Layout

variable {suite : Suite} {discipline : Discipline}

/-- The text of the program that adds. -/
def addingText : String := "MOV UP, ACC\nADD RIGHT\nMOV ACC, DOWN"

/-- The text of the program that hands values over to the left. -/
def handingText : String := "MOV UP, LEFT"

/-- Two nodes that add what comes in at the two input ports. -/
def adder (capacity : ℕ) : Layout where
  rows := 1
  cols := 2
  capacity
  placements := [⟨0, 0, addingText⟩, ⟨0, 1, handingText⟩]

namespace Adder

/-- The node on the left. -/
def left : Node (Edge.count 1 2) := (vacant ⟨0, Nat.one_pos⟩ ⟨0, Nat.two_pos⟩).load addingText

/-- The node on the right. -/
def right : Node (Edge.count 1 2) := (vacant ⟨0, Nat.one_pos⟩ ⟨1, Nat.one_lt_two⟩).load handingText

/-- The channel from an input port. -/
def input (col : Fin 2) : Fin (Edge.count 1 2) := Edge.column Nat.one_pos col ⟨0, Nat.two_pos⟩

/-- The channel to an output port. -/
def output (col : Fin 2) : Fin (Edge.count 1 2) := Edge.column Nat.one_pos col (Fin.last 1)

/-- The channel between the two nodes. -/
def between : Fin (Edge.count 1 2) := Edge.horizontal ⟨0, Nat.one_pos⟩ ⟨0, Nat.one_pos⟩

theorem fit (capacity : ℕ) : Fit 1 2 (adder capacity).placements :=
  checkPlacements_nil_eq_ok_iff.mp rfl

theorem isNodeAt_left (capacity : ℕ) : (adder capacity).IsNodeAt (0 : Fin 1) (0 : Fin 2) left ∧
    left.program = .adding .up .right .down := by
  have hports : ∀ instruction ∈ Program.adding .up .right .down, ∀ port ∈ instruction.ports,
      (Edge.ports (0 : Fin 1) (0 : Fin 2) port).isSome := by decide
  exact isNodeAt_load List.mem_cons_self (eq_of_beq (by decide +kernel)) hports

theorem isNodeAt_right (capacity : ℕ) : (adder capacity).IsNodeAt (0 : Fin 1) (1 : Fin 2) right ∧
    right.program = .passing .up .left := by
  have hports : ∀ instruction ∈ Program.passing .up .left, ∀ port ∈ instruction.ports,
      (Edge.ports (0 : Fin 1) (1 : Fin 2) port).isSome := by decide
  exact isNodeAt_load (List.mem_cons_of_mem _ List.mem_cons_self) (eq_of_beq (by decide +kernel))
    hports

/-- The grid of the adder. -/
theorem exists_grid (capacity : ℕ) : ∃ nodes,
    (adder capacity).build = .ok ((adder capacity).gridOf nodes) ∧ (adder capacity).AreBuilt nodes ∧
      nodes = [left, right] := by
  have hnodes : List.Forall₂
      (fun position node => (adder capacity).buildNode position.1 position.2 = .ok node)
      (positions 1 2) [left, right] := by
    refine .cons ?_ (.cons ?_ .nil)
    · exact (buildNode_eq_ok_iff_isNodeAt (fit capacity)).mpr (isNodeAt_left capacity).1
    · exact (buildNode_eq_ok_iff_isNodeAt (fit capacity)).mpr (isNodeAt_right capacity).1
  refine ⟨_, build_eq_ok_iff.mpr ⟨checkPlacements_nil_eq_ok_iff.mpr (fit capacity), _, hnodes, rfl⟩,
    .of_forall₂ hnodes, rfl⟩

/-- The sums of what comes in at the two input ports. -/
def sums (suite : Suite) : List Int64 :=
  List.zipWith (· + ·) (suite.inputs.values 0) (suite.inputs.values 1)

section Grid

variable {capacity : ℕ} {nodes : List (Node (Edge.count 1 2))}
  (hbuilt : (adder capacity).AreBuilt nodes)

theorem flows : ∀ node ∈ [left, right], Flows node := by
  intro node hmem k
  rcases List.mem_pair.mp hmem with rfl | rfl
  · have hprogram := (isNodeAt_left 0).2
    exact ⟨(Node.reads_adding_iff hprogram).mp,
      fun hwrite => Or.inl ((Node.writes_adding_iff hprogram).mp hwrite)⟩
  · have hprogram := (isNodeAt_right 0).2
    exact ⟨fun hread => Or.inl ((Node.reads_passing_iff hprogram).mp hread),
      fun hwrite => Or.inr ((Node.writes_passing_iff hprogram).mp hwrite)⟩

include hbuilt

/-- The grid is an adder in whose left column the sums are sent. -/
theorem isAdder : Bench.IsAdder ((adder capacity).gridOf nodes).wiring suite discipline
    (suite.inputs.values 0) (suite.inputs.values 1) (input 0) (input 1) between (output 0) := by
  have hrows : 0 < (adder capacity).rows := Nat.one_pos
  constructor
  case values => exact exists_source hrows (0 : Fin 2)
  case others => exact exists_source hrows (1 : Fin 2)
  case passes =>
    -- the node on the right hands its values to the left
    obtain ⟨task, node, hmember, hnode⟩ := hbuilt.exists_member (0 : Fin 1) (1 : Fin 2)
    obtain ⟨hat, hprogram⟩ := isNodeAt_right capacity
    obtain rfl := hat.unique (fit capacity) hnode
    exact ⟨task, right, .up, .left, hmember, ⟨_, _, Or.inr ⟨handingText, rfl⟩⟩, hprogram, rfl, rfl⟩
  case adds =>
    -- the node on the left adds what comes from above and from the right
    obtain ⟨task, node, hmember, hnode⟩ := hbuilt.exists_member (0 : Fin 1) (0 : Fin 2)
    obtain ⟨hat, hprogram⟩ := isNodeAt_left capacity
    obtain rfl := hat.unique (fit capacity) hnode
    exact ⟨task, left, .up, .right, .down, hmember, ⟨_, _, Or.inr ⟨addingText, rfl⟩⟩, hprogram, rfl,
      rfl, rfl⟩
  case sink => exact exists_sink hrows (0 : Fin 2)
  case direct_ne => exact (Edge.horizontal_ne_vertical _ _ _ _).symm

end Grid

/-- Nothing is ever sent to the output port on the right. -/
theorem outputs_eq {capacity : ℕ}
    {log : Log (Fin ((adder capacity).gridOf [left, right]).wiring.size) _}
    {bench : Bench ((adder capacity).gridOf [left, right]).wiring.size _}
    (horderly : Bench.Orderly ((adder capacity).gridOf [left, right]).wiring suite discipline log
      bench) :
    bench.evaluation.outputs = [(0, receivedOn (output 0) log), (1, [])] := by
  have hrows : 0 < (adder capacity).rows := Nat.one_pos
  -- neither node writes there: the one on the left writes below itself, the other to the left
  have hnodes : ∀ node ∈ [left, right], ¬ node.writes (output 1) := by
    have hleft : Edge.ports (0 : Fin 1) (0 : Fin 2) .down ≠ some (output 1) := by decide
    have hright : Edge.ports (0 : Fin 1) (1 : Fin 2) .left ≠ some (output 1) := by decide
    rintro node hmem hwrites
    rcases List.mem_pair.mp hmem with rfl | rfl
    · exact hleft ((Node.writes_adding_iff (isNodeAt_left 0).2).mp hwrites)
    · exact hright ((Node.writes_passing_iff (isNodeAt_right 0).2).mp hwrites)
  have hinputs : output 1 ∉ Edge.inputs 1 2 := by decide
  have hunsent : sentOn (output 1) log = [] := horderly.sentOn_eq_nil hnodes hinputs
  have hnone : receivedOn (output 1) log = [] :=
    List.prefix_nil.mp (hunsent ▸ horderly.receivedOn_prefix_sentOn (output 1))
  calc bench.evaluation.outputs
    _ = [(0, receivedOn (output 0) log), (1, receivedOn (output 1) log)] :=
        (evaluation_gridOf hrows horderly).1
    _ = [(0, receivedOn (output 0) log), (1, [])] := by rw [hnone]

end Adder

/-- In lockstep, the adder shows the sums of what comes in at the two input ports on the left,
one in every third tick, and nothing on the right.  Whatever else is done with it, and in
either discipline, what it shows on the left are the first of the sums. -/
theorem sums_of_adder {capacity : ℕ} (hcapacity : capacity ≤ 2 ^ 63 - 3) (suite : Suite) :
    ∃ grid, (adder capacity).build = .ok grid ∧
      (∀ ticks, ∃ bench,
        (Bench.ofWiring grid.wiring suite .lockstep).performAll (List.replicate ticks .tick) =
          .ok bench ∧
        bench.evaluation.outputs = [(0, (Adder.sums suite).take (min (ticks / 3)
          (min (suite.inputs.values 0).length (suite.inputs.values 1).length))), (1, [])]) ∧
      ∀ (discipline : Discipline) (operations : List (Bench.Operation grid.wiring.size)),
        (∀ task text, .load task text ∉ operations) → ∃ bench shown,
          (Bench.ofWiring grid.wiring suite discipline).performAll operations = .ok bench ∧
          bench.evaluation.outputs = [(0, shown), (1, [])] ∧ shown <+: Adder.sums suite := by
  obtain ⟨nodes, hbuild, hbuilt, rfl⟩ := Adder.exists_grid capacity
  have hexclusive : ((adder capacity).gridOf [Adder.left, Adder.right]).wiring.IsExclusive suite :=
    hbuilt.isExclusive_of_flows Adder.flows Nat.one_pos
  have hroom := @room_of_capacity (adder capacity) [Adder.left, Adder.right] hcapacity
  refine ⟨_, hbuild, fun ticks => ?_, fun discipline operations hkeep => ?_⟩
  · -- tick by tick, the sums are counted
    obtain ⟨bench, log, htime⟩ := Bench.exists_timeline hbuilt.isFresh hexclusive hroom
    refine ⟨bench ticks, htime.perform_eq ticks, (Adder.outputs_eq (htime.orderly ticks)).trans ?_⟩
    exact congrArg (fun shown => [(0, shown), (1, [])])
      (Bench.sums_of_isAdder htime (Adder.isAdder hbuilt) ticks)
  · -- in any other run, what is shown has been sent, and what is sent are sums
    obtain ⟨bench, hbench, horderly⟩ :=
      Bench.orderly_of_performAll hbuilt.isFresh hexclusive hroom discipline hkeep
    refine ⟨bench, _, hbench, Adder.outputs_eq horderly, ?_⟩
    -- there is one reader, so the order of arrival is the order of sending
    calc receivedOn (Adder.output 0) _
      _ <+: sentOn (Adder.output 0) _ := horderly.receivedOn_prefix_sentOn _
      _ <+: Adder.sums suite := (Adder.isAdder hbuilt).sentOn_prefix_sums horderly

/-- The first sum wraps around, and the third value on the left has none to be added to. -/
theorem sums_wrapping : 0 ≤ 2 ^ 63 - 3 ∧ ∃ grid, (adder 0).build = .ok grid ∧
    (∃ bench, (Bench.ofWiring grid.wiring
        ⟨⟨[(0, [9223372036854775807, 2, 3]), (1, [1, 20])]⟩, ⟨[]⟩⟩ .lockstep).performAll
          (List.replicate 7 .tick) = .ok bench ∧
      bench.evaluation.outputs = [(0, [-9223372036854775808, 22]), (1, [])]) ∧
    ∃ bench shown, (Bench.ofWiring grid.wiring
        ⟨⟨[(0, [9223372036854775807, 2, 3]), (1, [1, 20])]⟩, ⟨[]⟩⟩ .firstSettled).performAll
          [.tick, .run 2, .settle] = .ok bench ∧
      bench.evaluation.outputs = [(0, shown), (1, [])] ∧
      shown <+: [-9223372036854775808, 22] := by
  have hcapacity : 0 ≤ 2 ^ 63 - 3 := Nat.zero_le _
  obtain ⟨grid, hbuild, hlockstep, hany⟩ := sums_of_adder hcapacity
    ⟨⟨[(0, [9223372036854775807, 2, 3]), (1, [1, 20])]⟩, ⟨[]⟩⟩
  obtain ⟨bench, hperform, houtputs⟩ := hlockstep 7
  obtain ⟨other, shown, hother, hshown, hprefix⟩ :=
    hany .firstSettled [.tick, .run 2, .settle] (by simp)
  exact ⟨hcapacity, grid, hbuild, ⟨bench, hperform, houtputs.trans (by decide)⟩, other, shown,
    hother, hshown, hprefix.trans (by decide)⟩

end NodeGrid.Layout

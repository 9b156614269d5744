import NodeGrid.Proofs.Bench.Operations
import NodeGrid.Proofs.Bench.Trace
import NodeGrid.Proofs.Layout.Wires
import NodeGrid.Proofs.Network.Order

/-!
# The channels of a grid are first in, first out

A channel of a grid has two ends.  The one lies to the right of a node, below a node
or below a source (`Precedes`), the other to the left of a node, above a node or above
a sink (`Follows`).  At each end there is one participant, whose number can be read
off the channel (`Numbers.unique`).  So no channel has more than two
users, whatever the programs are, and is first in, first out (`isFifo_of_build`).
-/

namespace NodeGrid

namespace Edge

variable {rows cols : ℕ}

/-! ## The ends of a channel -/

/-- The number that belongs to a channel, if horizontal and vertical channels are
numbered as given. -/
def Numbers (horizontals verticals : ℕ → ℕ → ℕ) (index : ℕ) (k : Fin (count rows cols)) : Prop :=
  (∃ row col, k = horizontal row col ∧ index = horizontals row.val col.val) ∨
    ∃ level col, k = vertical level col ∧ index = verticals level.val col.val

/-- The participant with the given number is to the left of the channel or above it. -/
def Precedes (index : ℕ) (k : Fin (count rows cols)) : Prop :=
  Numbers (fun row col => row * cols + col)
    (fun level col => if level = 0 then rows * cols + col else (level - 1) * cols + col) index k

/-- The participant with the given number is to the right of the channel or below it. -/
def Follows (index : ℕ) (k : Fin (count rows cols)) : Prop :=
  Numbers (fun row col => row * cols + (col + 1))
    (fun level col => if level = rows then rows * cols + cols + col else level * cols + col) index k

variable {index other : ℕ} {k : Fin (count rows cols)}

theorem Numbers.unique {horizontals verticals : ℕ → ℕ → ℕ}
    (hindex : Numbers horizontals verticals index k)
    (hother : Numbers horizontals verticals other k) : index = other := by
  rcases hindex with ⟨row, col, rfl, rfl⟩ | ⟨level, col, rfl, rfl⟩
  · rcases hother with ⟨otherRow, otherCol, heq, rfl⟩ | ⟨level, otherCol, heq, -⟩
    · obtain ⟨hrow, hcol⟩ := horizontal_inj heq
      rw [hrow, hcol]
    · exact (horizontal_ne_vertical _ _ _ _ heq).elim
  · rcases hother with ⟨row, otherCol, heq, -⟩ | ⟨otherLevel, otherCol, heq, rfl⟩
    · exact (horizontal_ne_vertical _ _ _ _ heq.symm).elim
    · obtain ⟨hlevel, hcol⟩ := vertical_inj heq
      rw [hlevel, hcol]

/-- A node is at an end of every channel around it. -/
theorem ends_of_ports {row : Fin rows} {col : Fin cols} {port : Port}
    (hport : ports row col port = some k) :
    Precedes (row.val * cols + col.val) k ∨ Follows (row.val * cols + col.val) k := by
  -- a node comes after the channels to its left and above it, and before the other two
  cases port with
  | left =>
      obtain ⟨hleft, hk⟩ := Option.dite_none_right_eq_some.mp hport
      cases hk
      refine Or.inr (Or.inl ⟨_, _, rfl, ?_⟩)
      dsimp only
      omega
  | right =>
      obtain ⟨hright, hk⟩ := Option.dite_none_right_eq_some.mp hport
      cases hk
      exact Or.inl (Or.inl ⟨_, _, rfl, rfl⟩)
  | up =>
      cases hport
      refine Or.inr (Or.inr ⟨_, _, rfl, ?_⟩)
      exact (if_neg row.isLt.ne).symm
  | down =>
      cases hport
      exact Or.inl (Or.inr ⟨_, _, rfl, rfl⟩)

/-- A source is above its input port. -/
theorem precedes_of_inputs (hindex : (inputs rows cols)[index]? = some k) :
    Precedes (rows * cols + index) k := by
  unfold inputs at hindex
  split at hindex
  · rw [List.getElem?_map] at hindex
    obtain ⟨col, hcol, rfl⟩ := Option.map_eq_some_iff.mp hindex
    obtain ⟨hlt, rfl⟩ := List.getElem?_eq_some_iff.mp hcol
    refine Or.inr ⟨_, _, rfl, ?_⟩
    simp [above]
  · cases hindex

/-- A sink is below its output port. -/
theorem follows_of_outputs (hindex : (outputs rows cols)[index]? = some k) :
    Follows (rows * cols + cols + index) k := by
  unfold outputs at hindex
  split at hindex
  · rename_i hrows
    rw [List.getElem?_map] at hindex
    obtain ⟨col, hcol, rfl⟩ := Option.map_eq_some_iff.mp hindex
    obtain ⟨hlt, rfl⟩ := List.getElem?_eq_some_iff.mp hcol
    refine Or.inr ⟨_, _, rfl, ?_⟩
    have hlast : rows - 1 + 1 = rows := by omega
    simp [below, hlast]
  · cases hindex

end Edge

/-- If no channel of a new bench can be reached by more than two participants, every
channel is first in, first out, whatever is done with the bench. -/
theorem Bench.isFifo_ofWiring {n : ℕ} {wiring : Wiring n} {suite : Suite} {discipline : Discipline}
    (hfresh : ∀ node ∈ wiring.nodes, node.IsFresh)
    (hroom : ∀ k, wiring.capacities.get k ≤ 2 ^ 63 - 3)
    (hcard : ∀ k, ((ofWiring wiring suite discipline).network.reaching k).card ≤ 2)
    (operations : List (Operation wiring.size)) :
    ∃ bench, (ofWiring wiring suite discipline).performAll operations = .ok bench ∧
      replay (ofWiring wiring suite discipline).network.fabric.channels
          ((ofWiring wiring suite discipline).performAllTrace operations) =
        some bench.network.fabric.channels ∧
      ∀ k, IsFifo k ((ofWiring wiring suite discipline).performAllTrace operations) := by
  -- two users of a channel leave room for its capacity
  have hsound : (ofWiring wiring suite discipline).network.Sound
      (ofWiring wiring suite discipline).network.reaching := by
    refine sound_ofWiring_of_uses hfresh (fun task k huses => ?_) fun k => ?_
    · exact Network.mem_reaching.mpr (Participant.reaches_of_uses huses)
    · have hcapacity := hroom k
      have husers := hcard k
      omega
  obtain ⟨bench, hperform, hpath⟩ := exists_path_of_sound hsound
    (isQuiet_ofWiring wiring suite discipline) (fun _ _ _ => trivial)
    fun task (_ : True) k => Network.mem_reaching.mpr
  refine ⟨bench, hperform, ?_, fun k => ?_⟩
  · exact hpath.replay hsound fun task _ k => Network.mem_reaching.mpr
  · -- at the start nothing has been called
    refine Network.isFifo_of_path hsound (fun task k => Network.mem_reaching.mpr) hcard rfl
      (engaged_ofWiring hfresh suite discipline) (fun j => ?_) hpath k
    rw [channel_ofWiring]
    rfl

namespace Layout

/-! ## The participants of a grid -/

/-- The nodes are those of all positions. -/
structure AreBuilt (layout : Layout) (nodes : List (Node (Edge.count layout.rows layout.cols))) :
    Prop where
  length_eq : nodes.length = layout.rows * layout.cols
  node_eq : ∀ index node, nodes[index]? = some node → ∃ row col,
    index = row.val * layout.cols + col.val ∧ layout.buildNode row col = .ok node

variable {layout : Layout} {nodes : List (Node (Edge.count layout.rows layout.cols))}

theorem AreBuilt.of_forall₂ (hnodes : List.Forall₂
    (fun position node => layout.buildNode position.1 position.2 = .ok node)
    (positions layout.rows layout.cols) nodes) : layout.AreBuilt nodes where
  length_eq := by rw [← hnodes.length_eq, length_positions]
  node_eq index node hindex := by
    obtain ⟨hlength, hbuilt⟩ := List.forall₂_iff_get.mp hnodes
    obtain ⟨hlt, rfl⟩ := List.getElem?_eq_some_iff.mp hindex
    have hposition := hbuilt index (hlength ▸ hlt) hlt
    refine ⟨_, _, ?_, hposition⟩
    exact index_of_positions (List.getElem?_eq_getElem (hlength ▸ hlt))

theorem exists_of_build {grid : Grid} (hbuild : layout.build = .ok grid) :
    ∃ nodes, layout.AreBuilt nodes ∧ grid = layout.gridOf nodes := by
  rw [build_eq] at hbuild
  obtain ⟨-, -, hbuild⟩ := bind_eq_ok.mp hbuild
  obtain ⟨nodes, hnodes, hgrid⟩ := bind_eq_ok.mp hbuild
  cases hgrid
  exact ⟨nodes, .of_forall₂ (mapM_eq_ok_iff.mp hnodes), rfl⟩

/-- The node at a position is inert, or has the program that is placed there. -/
theorem buildNode_eq_ok_iff {row : Fin layout.rows} {col : Fin layout.cols}
    {node : Node (Edge.count layout.rows layout.cols)} : layout.buildNode row col = .ok node ↔
    layout.source? row col = none ∧ node = .inert (nodeName row col) (Edge.ports row col) ∨
      ∃ source compilation, layout.source? row col = some source ∧
        (Node.inert (nodeName row col) (Edge.ports row col)).assemble source = .ok compilation ∧
        node = (Node.inert (nodeName row col) (Edge.ports row col)).load source := by
  unfold buildNode placeNode
  cases layout.source? row col with
  | none => simp [eq_comm]
  | some source =>
      cases hassemble : (Node.inert (nodeName row col) (Edge.ports row col)).assemble source with
      | error error =>
          simp [Node.ofSource, hassemble, Except.mapError, bind, Except.bind]
      | ok compilation =>
          simp [Node.ofSource, hassemble, Except.mapError, bind, Except.bind, pure, Except.pure,
            eq_comm]

theorem ports_of_buildNode {row : Fin layout.rows} {col : Fin layout.cols}
    {node : Node (Edge.count layout.rows layout.cols)}
    (hnode : layout.buildNode row col = .ok node) :
    node.IsFresh ∧ node.ports = Edge.ports row col := by
  rcases buildNode_eq_ok_iff.mp hnode with ⟨-, rfl⟩ | ⟨source, compilation, -, -, rfl⟩
  · exact ⟨⟨_, _, Or.inl rfl⟩, rfl⟩
  · exact ⟨⟨_, _, Or.inr ⟨source, rfl⟩⟩, rfl⟩

theorem AreBuilt.isFresh (hbuilt : layout.AreBuilt nodes) : ∀ node ∈ nodes, node.IsFresh := by
  intro node hmem
  obtain ⟨index, hindex⟩ := List.mem_iff_getElem?.mp hmem
  obtain ⟨row, col, -, hnode⟩ := hbuilt.node_eq index node hindex
  exact (ports_of_buildNode hnode).1

/-- Every channel that a participant of a grid can reach has the participant at one of
its ends. -/
theorem AreBuilt.ends_of_reaches (hbuilt : layout.AreBuilt nodes)
    {suite : Suite} {discipline : Discipline} {task : Fin (layout.gridOf nodes).wiring.size}
    {k : Fin (Edge.count layout.rows layout.cols)}
    (hreaches : ((Bench.ofWiring (layout.gridOf nodes).wiring suite discipline).network.member
      task).Reaches k) :
    Edge.Precedes task.val k ∨ Edge.Follows task.val k := by
  have hmember := Bench.member_ofWiring (layout.gridOf nodes).wiring suite discipline task
  rcases Bench.participants_cases hmember with ⟨node, hnode, hparticipant⟩ |
    ⟨port, j, hindex, hport, hparticipant⟩ | ⟨port, j, hindex, hport, hparticipant⟩
  · -- a node is at an end of the channels around it, a source above its port, a sink below its port
    obtain ⟨row, col, hindex, hbuilt⟩ := hbuilt.node_eq _ node hnode
    rw [hparticipant] at hreaches
    obtain ⟨port, hport⟩ := hreaches
    rw [(ports_of_buildNode hbuilt).2] at hport
    rw [hindex]
    exact Edge.ends_of_ports hport
  · rw [hparticipant] at hreaches
    cases hreaches
    rw [hindex, show (layout.gridOf nodes).wiring.nodes.length = _ from hbuilt.length_eq]
    exact Or.inl (Edge.precedes_of_inputs hport)
  · rw [hparticipant] at hreaches
    cases hreaches
    -- an output port in the list means that there is a row above it
    have hrows : 0 < layout.rows := by
      by_contra hnone
      rw [show (layout.gridOf nodes).wiring.outputs = [] from dif_neg hnone] at hport
      cases hport
    rw [hindex, show (layout.gridOf nodes).wiring.nodes.length = _ from hbuilt.length_eq,
      show (layout.gridOf nodes).wiring.inputs.length = _ from Edge.length_inputs hrows]
    exact Or.inr (Edge.follows_of_outputs hport)

/-- No channel of a grid has more than two participants at its ends. -/
theorem AreBuilt.card_reaching_le (hbuilt : layout.AreBuilt nodes) (suite : Suite)
    (discipline : Discipline) (k : Fin (Edge.count layout.rows layout.cols)) :
    ((Bench.ofWiring (layout.gridOf nodes).wiring suite discipline).network.reaching k).card ≤ 2 := by
  classical
  let ends (isEnd : ℕ → Prop) : Finset (Fin (layout.gridOf nodes).wiring.size) :=
    Finset.univ.filter fun task => isEnd task.val
  have hone : ∀ isEnd : ℕ → Prop, (∀ index other, isEnd index → isEnd other → index = other) →
      (ends isEnd).card ≤ 1 := by
    intro isEnd hunique
    refine Finset.card_le_one.mpr fun task htask other hother => Fin.ext ?_
    exact hunique _ _ (Finset.mem_filter.mp htask).2 (Finset.mem_filter.mp hother).2
  -- the two ends of a channel are taken by at most one participant each
  have hsubset : (Bench.ofWiring (layout.gridOf nodes).wiring suite discipline).network.reaching k ⊆
      ends (Edge.Precedes · k) ∪ ends (Edge.Follows · k) := by
    intro task htask
    simp only [ends, Finset.mem_union, Finset.mem_filter, Finset.mem_univ, true_and]
    exact hbuilt.ends_of_reaches (Network.mem_reaching.mp htask)
  calc _ ≤ (ends (Edge.Precedes · k) ∪ ends (Edge.Follows · k)).card := Finset.card_le_card hsubset
    _ ≤ (ends (Edge.Precedes · k)).card + (ends (Edge.Follows · k)).card := Finset.card_union_le _ _
    _ ≤ 1 + 1 := Nat.add_le_add (hone _ fun _ _ => Edge.Numbers.unique)
        (hone _ fun _ _ => Edge.Numbers.unique)

/-- On a grid, every channel is first in, first out, whatever is done with the grid. -/
theorem isFifo_of_build {layout : Layout} {grid : Grid} (hbuild : layout.build = .ok grid)
    (hcapacity : layout.capacity ≤ 2 ^ 63 - 3) (suite : Suite) (discipline : Discipline)
    (operations : List (Bench.Operation grid.wiring.size)) :
    ∃ bench, (Bench.ofWiring grid.wiring suite discipline).performAll operations = .ok bench ∧
      replay (Bench.ofWiring grid.wiring suite discipline).network.fabric.channels
          ((Bench.ofWiring grid.wiring suite discipline).performAllTrace operations) =
        some bench.network.fabric.channels ∧
      ∀ k, IsFifo k ((Bench.ofWiring grid.wiring suite discipline).performAllTrace operations) := by
  obtain ⟨nodes, hbuilt, rfl⟩ := exists_of_build hbuild
  exact Bench.isFifo_ofWiring hbuilt.isFresh
    (fun k => (layout.capacities_gridOf nodes k).trans_le hcapacity)
    (hbuilt.card_reaching_le suite discipline) operations

/-- Two nodes that send to each other over one channel, which holds a single value. -/
def crossing : Layout where
  rows := 1
  cols := 2
  capacity := 1
  placements := [⟨0, 0, "MOV UP, RIGHT\nMOV RIGHT, DOWN"⟩, ⟨0, 1, "MOV UP, LEFT\nMOV LEFT, DOWN"⟩]

/-- Values for both nodes. -/
def crossingSuite : Suite :=
  ⟨⟨[(0, [7, 8]), (1, [9, 10])]⟩, ⟨[(0, [7, 8]), (1, [9, 10])]⟩⟩

/-- Whether the second node waits with a value when it gets another program, and all values come
out all the same. -/
def isCrossed (grid : Grid) : Bool :=
  if hsize : 1 < grid.wiring.size then
    let bench := Bench.ofWiring grid.wiring crossingSuite .firstSettled
    ((bench.performAll [.tick, .tick, .load ⟨1, hsize⟩ "MOV LEFT, DOWN\nMOV UP, LEFT"]).toOption.any
        fun waiting => waiting.abandoned? ⟨1, hsize⟩ == some (.write .left 9)) &&
      (bench.performAll [.tick, .tick, .load ⟨1, hsize⟩ "MOV LEFT, DOWN\nMOV UP, LEFT",
        .run 9]).toOption.any fun last => last.evaluation.outputs == [(0, [7, 8]), (1, [9, 10])]
  else false

/-- The nodes take turns on the channel.  The second one gets another program while it waits with
its first value, which comes out all the same. -/
theorem isFifo_crossing : ∃ grid : Grid, crossing.build = .ok grid ∧ crossing.capacity ≤ 2 ^ 63 - 3 ∧
    ∃ (hsize : 1 < grid.wiring.size) (waiting last : Bench grid.wiring.size grid.channels),
      (Bench.ofWiring grid.wiring crossingSuite .firstSettled).performAll
        [.tick, .tick, .load ⟨1, hsize⟩ "MOV LEFT, DOWN\nMOV UP, LEFT"] = .ok waiting ∧
      waiting.abandoned? ⟨1, hsize⟩ = some (.write .left 9) ∧
      (Bench.ofWiring grid.wiring crossingSuite .firstSettled).performAll
        [.tick, .tick, .load ⟨1, hsize⟩ "MOV LEFT, DOWN\nMOV UP, LEFT", .run 9] = .ok last ∧
      last.evaluation.outputs = [(0, [7, 8]), (1, [9, 10])] ∧
      ∀ k, IsFifo k ((Bench.ofWiring grid.wiring crossingSuite .firstSettled).performAllTrace
        [.tick, .tick, .load ⟨1, hsize⟩ "MOV LEFT, DOWN\nMOV UP, LEFT", .run 9]) := by
  -- the two runs are evaluated together, and the order comes from the theorem
  have hbuilt : crossing.build.toOption.any isCrossed = true := by decide +kernel
  obtain ⟨grid, hbuild, hcrossed⟩ := exists_ok_of_any hbuilt
  have hcapacity : crossing.capacity ≤ 2 ^ 63 - 3 := by decide
  unfold isCrossed at hcrossed
  split at hcrossed
  · rename_i hsize
    obtain ⟨hload, hrun⟩ := Bool.and_eq_true_iff.mp hcrossed
    obtain ⟨waiting, hwaiting, habandoned⟩ := exists_ok_of_any hload
    obtain ⟨last, hlast, houtputs⟩ := exists_ok_of_any hrun
    obtain ⟨_, -, -, hfifo⟩ := isFifo_of_build hbuild hcapacity crossingSuite .firstSettled
      [.tick, .tick, .load ⟨1, hsize⟩ "MOV LEFT, DOWN\nMOV UP, LEFT", .run 9]
    exact ⟨grid, hbuild, hcapacity, hsize, waiting, last, hwaiting, eq_of_beq habandoned, hlast,
      eq_of_beq houtputs, hfifo⟩
  · cases hcrossed

end Layout

end NodeGrid

import NodeGrid.Proofs.Layout.Fifo

/-!
# Where the channels of a grid are attached

The channel at a place of a grid is read off the node there, or off the list of input or output
ports (`Grid.attached?`).  When the grid is the one that was built for a layout, this is the
channel that lies at the place (`Layout.AreBuilt.attached?_eq`), so the grid is wired as its
picture shows (`Layout.isWired_of_build`).
-/

namespace NodeGrid

/-- The channel at a place of a grid. -/
def Grid.attached? (grid : Grid) :
    Attachment grid.rows grid.cols → Option (Fin grid.channels)
  | .port row col port => (grid.node? row col).bind (·.ports port)
  | .input col => grid.wiring.inputs[col.val]?
  | .output col => grid.wiring.outputs[col.val]?

/-! ## The grid of a layout -/

/-- A grid is wired as its picture shows: neighbours share a channel, and so do the nodes
at the upper and lower border and the ports next to them. -/
structure Grid.IsWired (grid : Grid) (capacity : ℕ) : Prop where
  length_inputs : grid.wiring.inputs.length = grid.cols
  length_outputs : grid.wiring.outputs.length = grid.cols
  /-- How many channels there are. -/
  channels_eq : grid.channels =
    grid.rows * (grid.cols - 1) + (grid.rows - 1) * grid.cols + 2 * grid.cols
  /-- On a new bench, they have not been used. -/
  channel_eq : ∀ suite discipline k,
    (Bench.ofWiring grid.wiring suite discipline).network.fabric.channel k = .ofCapacity capacity
  /-- Each of them is attached at exactly two places, which adjoin. -/
  ends : ∀ k, ∃ former latter, former ≠ latter ∧ former.Adjoins latter ∧
    ∀ place, grid.attached? place = some k ↔ place = former ∨ place = latter
  /-- Any two places that adjoin share a channel. -/
  shared : ∀ former latter, former.Adjoins latter →
    ∃ k, grid.attached? former = some k ∧ grid.attached? latter = some k
  /-- Only the outer sides of the rows are not connected. -/
  unconnected_iff : ∀ place, grid.attached? place = none ↔
    (∃ row col, col.val = 0 ∧ place = .port row col .left) ∨
      ∃ row col, col.val + 1 = grid.cols ∧ place = .port row col .right

namespace Layout

variable {layout : Layout} {nodes : List (Node (Edge.count layout.rows layout.cols))}

theorem name_of_buildNode {row : Fin layout.rows} {col : Fin layout.cols}
    {node : Node (Edge.count layout.rows layout.cols)}
    (hnode : layout.buildNode row col = .ok node) : node.name = nodeName row col := by
  rcases buildNode_eq_ok_iff.mp hnode with ⟨-, rfl⟩ | ⟨source, compilation, -, -, rfl⟩ <;> rfl

/-- The node at a position is the one that is built for it. -/
theorem AreBuilt.exists_node (hbuilt : layout.AreBuilt nodes) (row : Fin layout.rows)
    (col : Fin layout.cols) : ∃ node, nodes[row.val * layout.cols + col.val]? = some node ∧
      layout.buildNode row col = .ok node := by
  have hindex : row.val * layout.cols + col.val < nodes.length := by
    rw [hbuilt.length_eq]
    exact index_lt row col
  obtain ⟨otherRow, otherCol, hsame, hnode⟩ :=
    hbuilt.node_eq _ _ (List.getElem?_eq_getElem hindex)
  obtain ⟨hrow, hcol⟩ := Edge.index_inj col.isLt otherCol.isLt hsame
  obtain rfl := Fin.ext hrow
  obtain rfl := Fin.ext hcol
  exact ⟨_, List.getElem?_eq_getElem hindex, hnode⟩

theorem node?_gridOf (nodes : List (Node (Edge.count layout.rows layout.cols)))
    (row : Fin layout.rows) (col : Fin layout.cols) :
    (layout.gridOf nodes).node? row col = nodes[row.val * layout.cols + col.val]? :=
  if_pos ⟨row.isLt, col.isLt⟩

theorem AreBuilt.attached?_eq (hbuilt : layout.AreBuilt nodes)
    (place : Attachment layout.rows layout.cols) :
    (layout.gridOf nodes).attached? place = Edge.attached? place := by
  cases place with
  | input col => rfl
  | output col => rfl
  | port row col port =>
      obtain ⟨node, hindex, hnode⟩ := hbuilt.exists_node row col
      have hlookup : (layout.gridOf nodes).node? row col = some node :=
        (node?_gridOf nodes row col).trans hindex
      have hport : node.ports port = Edge.ports row col port :=
        congrFun (ports_of_buildNode hnode).2 port
      change ((layout.gridOf nodes).node? row col).bind (·.ports port) = Edge.ports row col port
      rw [hlookup]
      exact hport

theorem AreBuilt.isWired (hbuilt : layout.AreBuilt nodes) (hrows : 0 < layout.rows) :
    (layout.gridOf nodes).IsWired layout.capacity where
  length_inputs := Edge.length_inputs hrows
  length_outputs := Edge.length_outputs hrows
  channels_eq := by
    change layout.rows * (layout.cols - 1) + Edge.levels layout.rows * layout.cols = _
    -- the levels are those between two rows and the two at the border
    rw [Edge.levels_mul hrows, Nat.add_assoc]
    rfl
  channel_eq suite discipline k := by
    rw [Bench.channel_ofWiring]
    exact congrArg Channel.ofCapacity (layout.capacities_gridOf nodes k)
  ends k := by
    obtain ⟨former, latter, hadjoins, hends⟩ := Edge.exists_ends k
    exact ⟨former, latter, hadjoins.ne, hadjoins, fun place =>
      (Eq.congr_left (hbuilt.attached?_eq place)).trans (hends place)⟩
  shared former latter hadjoins := by
    obtain ⟨k, hformer, hlatter⟩ := Edge.exists_channel hadjoins
    exact ⟨k, (hbuilt.attached?_eq former).trans hformer, (hbuilt.attached?_eq latter).trans hlatter⟩
  unconnected_iff place :=
    (Eq.congr_left (hbuilt.attached?_eq place)).trans (Edge.attached?_eq_none_iff hrows)

/-- The grid of a layout is wired as its picture shows, and the node at every position is
listed at the number of the position, under its name. -/
theorem isWired_of_build {layout : Layout} {grid : Grid} (hbuild : layout.build = .ok grid) :
    grid.rows = layout.rows ∧ grid.cols = layout.cols ∧
    grid.wiring.nodes.length = grid.rows * grid.cols ∧
    (∀ row col, row < grid.rows → col < grid.cols → ∃ node, grid.node? row col = some node ∧
      grid.wiring.nodes[row * grid.cols + col]? = some node ∧ node.name = s!"{row}:{col}") ∧
    (∀ row col, ¬ (row < grid.rows ∧ col < grid.cols) → grid.node? row col = none) ∧
    (0 < grid.rows → grid.IsWired layout.capacity) ∧
    (grid.rows = 0 ∨ grid.cols = 0 →
      grid.wiring.nodes = [] ∧ grid.wiring.inputs = [] ∧ grid.wiring.outputs = []) := by
  obtain ⟨nodes, hbuilt, rfl⟩ := exists_of_build hbuild
  refine ⟨rfl, rfl, hbuilt.length_eq, ?_, fun row col hout => if_neg hout, hbuilt.isWired, ?_⟩
  · intro row col hrow hcol
    obtain ⟨node, hindex, hnode⟩ := hbuilt.exists_node ⟨row, hrow⟩ ⟨col, hcol⟩
    have hlookup : (layout.gridOf nodes).node? row col = some node :=
      (node?_gridOf nodes ⟨row, hrow⟩ ⟨col, hcol⟩).trans hindex
    have hname := name_of_buildNode hnode
    exact ⟨node, hlookup, hindex, hname⟩
  · -- without rows or columns there is nothing to list
    intro hempty
    refine ⟨List.eq_nil_of_length_eq_zero ?_, ?_, ?_⟩
    · exact hbuilt.length_eq.trans (Nat.mul_eq_zero.mpr hempty)
    · exact Edge.inputs_eq_nil hempty
    · exact Edge.outputs_eq_nil hempty

/-- Six nodes, one of which has a program. -/
def sixfold : Layout where
  rows := 2
  cols := 3
  capacity := 4
  placements := [⟨1, 2, "MOV UP, LEFT"⟩]

theorem isWired_sixfold : ∃ grid, sixfold.build = .ok grid ∧ grid.wiring.nodes.length = 2 * 3 ∧
    grid.channels = 13 ∧ grid.IsWired 4 := by
  have hok : sixfold.build.toOption.any (fun _ => true) = true := by decide +kernel
  obtain ⟨grid, hbuild, -⟩ := exists_ok_of_any hok
  obtain ⟨hrows, hcols, hlength, -, -, hwired, -⟩ := isWired_of_build hbuild
  have hwired := hwired (by rw [hrows]; decide)
  refine ⟨grid, hbuild, ?_, ?_, hwired⟩
  · rw [hlength, hrows, hcols]
    rfl
  · rw [hwired.channels_eq, hrows, hcols]
    rfl

end Layout

end NodeGrid

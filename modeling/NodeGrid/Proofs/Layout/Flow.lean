import NodeGrid.Proofs.Bench.Conservation
import NodeGrid.Proofs.Layout.Building

/-!
# Grids through which values flow

On a grid whose nodes read no ports but `UP` and `RIGHT` and write none but `DOWN` and
`LEFT`, the values flow downwards and to the left.  Every channel then has one reader, at
the end that lies downstream, and one writer, at the other end
(`Layout.AreBuilt.isExclusive_of_flows`); so whatever is done with the grid is orderly.

A column of such a grid, and of any other, leads from an input port to an output port
(`Edge.column`).  The source above it sends the values of the one, and what the sink below
it has received is what the other one shows (`Layout.evaluation_gridOf`).
-/

namespace NodeGrid

namespace Edge

variable {rows cols : ℕ}

theorem levels_eq (hrows : 0 < rows) : levels rows = rows + 1 := if_neg hrows.ne'

/-- The channels of a column from the input port downwards. -/
def column (hrows : 0 < rows) (col : Fin cols) (level : Fin (rows + 1)) : Fin (count rows cols) :=
  vertical (Fin.cast (levels_eq hrows).symm level) col

theorem getElem?_inputs (hrows : 0 < rows) (col : Fin cols) :
    (inputs rows cols)[col.val]? = some (column hrows col 0) :=
  getElem?_inputs_eq_some_iff.mpr ⟨⟨0, hrows⟩, rfl, rfl⟩

theorem getElem?_outputs (hrows : 0 < rows) (col : Fin cols) :
    (outputs rows cols)[col.val]? = some (column hrows col (Fin.last rows)) :=
  getElem?_outputs_eq_some_iff.mpr
    ⟨⟨rows - 1, last_lt hrows⟩, Nat.sub_add_cancel hrows,
      congrArg (vertical · col) (Fin.ext (Nat.sub_add_cancel hrows).symm)⟩

/-! ## Upstream and downstream -/

/-- The participant with the given number is below the channel, or to the left of it. -/
def Downstream (index : ℕ) (k : Fin (count rows cols)) : Prop :=
  Numbers (fun row col => row * cols + col)
    (fun level col => if level = rows then rows * cols + cols + col else level * cols + col) index k

/-- The participant with the given number is above the channel, or to the right of it. -/
def Upstream (index : ℕ) (k : Fin (count rows cols)) : Prop :=
  Numbers (fun row col => row * cols + (col + 1))
    (fun level col => if level = 0 then rows * cols + col else (level - 1) * cols + col) index k

section Ends

variable {row : Fin rows} {col : Fin cols} {k : Fin (count rows cols)}

theorem downstream_of_ports (hport : ports row col .up = some k ∨ ports row col .right = some k) :
    Downstream (row.val * cols + col.val) k := by
  rcases hport with hup | hright
  · cases hup
    exact Or.inr ⟨_, _, rfl, (if_neg row.isLt.ne).symm⟩
  · obtain ⟨former, hcol, rfl⟩ := ports_right_eq_some_iff.mp hright
    exact Or.inl ⟨_, _, rfl, congrArg (row.val * cols + ·) hcol⟩

theorem upstream_of_ports (hport : ports row col .down = some k ∨ ports row col .left = some k) :
    Upstream (row.val * cols + col.val) k := by
  rcases hport with hdown | hleft
  · cases hdown
    exact Or.inr ⟨_, _, rfl, rfl⟩
  · obtain ⟨former, hcol, rfl⟩ := ports_left_eq_some_iff.mp hleft
    exact Or.inl ⟨_, _, rfl, congrArg (row.val * cols + ·) hcol⟩

theorem upstream_of_inputs {index : ℕ} (hrows : 0 < rows)
    (hindex : (inputs rows cols)[index]? = some k) : Upstream (rows * cols + index) k := by
  obtain ⟨hlt, -⟩ := List.getElem?_eq_some_iff.mp hindex
  rw [length_inputs hrows] at hlt
  cases (getElem?_inputs hrows ⟨index, hlt⟩).symm.trans hindex
  exact Or.inr ⟨_, _, rfl, (if_pos rfl).symm⟩

theorem downstream_of_outputs {index : ℕ} (hrows : 0 < rows)
    (hindex : (outputs rows cols)[index]? = some k) : Downstream (rows * cols + cols + index) k := by
  obtain ⟨hlt, -⟩ := List.getElem?_eq_some_iff.mp hindex
  rw [length_outputs hrows] at hlt
  cases (getElem?_outputs hrows ⟨index, hlt⟩).symm.trans hindex
  exact Or.inr ⟨_, _, rfl, (if_pos rfl).symm⟩

end Ends

end Edge

namespace Layout

variable {layout : Layout} {nodes : List (Node (Edge.count layout.rows layout.cols))}
  {suite : Suite} {discipline : Discipline}

/-! ## The participants of a column -/

/-- The source above a column. -/
theorem exists_source (hrows : 0 < layout.rows) (col : Fin layout.cols) :
    ∃ task, (Bench.ofWiring (layout.gridOf nodes).wiring suite discipline).network.member task =
      .source (.ofValues (suite.inputs.values col) (Edge.column hrows col 0)) := by
  have hport : col.val < (layout.gridOf nodes).wiring.inputs.length :=
    (Edge.length_inputs hrows).symm ▸ col.isLt
  have hinput := (List.getElem?_eq_some_iff.mp (Edge.getElem?_inputs hrows col)).2
  refine ⟨(layout.gridOf nodes).wiring.sourceTask ⟨col, hport⟩, ?_⟩
  rw [Bench.member_sourceTask]
  exact congrArg (Participant.source <| .ofValues (suite.inputs.values col) ·) hinput

/-- The sink below a column. -/
theorem exists_sink (hrows : 0 < layout.rows) (col : Fin layout.cols) :
    ∃ task, (Bench.ofWiring (layout.gridOf nodes).wiring suite discipline).network.member task =
      .sink (.ofChannel (Edge.column hrows col (Fin.last layout.rows))) := by
  have hport : col.val < (layout.gridOf nodes).wiring.outputs.length :=
    (Edge.length_outputs hrows).symm ▸ col.isLt
  have houtput := (List.getElem?_eq_some_iff.mp (Edge.getElem?_outputs hrows col)).2
  refine ⟨(layout.gridOf nodes).wiring.sinkTask ⟨col, hport⟩, ?_⟩
  rw [Bench.member_sinkTask]
  exact congrArg (Participant.sink <| .ofChannel ·) houtput

theorem AreBuilt.exists_member (hbuilt : layout.AreBuilt nodes) (row : Fin layout.rows)
    (col : Fin layout.cols) : ∃ task node,
      (Bench.ofWiring (layout.gridOf nodes).wiring suite discipline).network.member task =
        .node node ∧ layout.buildNode row col = .ok node := by
  obtain ⟨node, hindex, hnode⟩ := hbuilt.exists_node row col
  obtain ⟨hlt, hget⟩ := List.getElem?_eq_some_iff.mp hindex
  refine ⟨(layout.gridOf nodes).wiring.nodeTask ⟨_, hlt⟩, node, ?_, hnode⟩
  rw [Bench.member_nodeTask]
  exact congrArg Participant.node hget

/-- A list over the ports of a grid is one over its columns. -/
theorem ofFn_ports {n cols : ℕ} {α : Type} {ports : List (Fin n)} {channel : Fin cols → Fin n}
    (hlength : ports.length = cols) (hports : ∀ col, ports[col.val]? = some (channel col))
    (f : ℕ → Fin n → α) : List.ofFn (fun port : Fin ports.length => f port (ports.get port)) =
      List.ofFn fun col : Fin cols => f col (channel col) := by
  subst hlength
  refine congrArg List.ofFn (funext fun port => congrArg (f port) ?_)
  exact (List.getElem?_eq_some_iff.mp (hports port)).2

/-- What the ports of a grid have been worth, read off the channels of its columns. -/
theorem evaluation_gridOf {bench : Bench (layout.gridOf nodes).wiring.size _}
    {log : Log (Fin (layout.gridOf nodes).wiring.size) _} (hrows : 0 < layout.rows)
    (horderly : Bench.Orderly (layout.gridOf nodes).wiring suite discipline log bench) :
    bench.evaluation.outputs = List.ofFn (fun col : Fin layout.cols =>
        (col.val, receivedOn (Edge.column hrows col (Fin.last layout.rows)) log)) ∧
      bench.evaluation.backlog = List.ofFn fun col : Fin layout.cols =>
        (col.val, (suite.inputs.values col).length -
          (sentOn (Edge.column hrows col 0) log).length) := by
  obtain ⟨houtputs, hbacklog⟩ := horderly.evaluation_eq
  refine ⟨houtputs.trans ?_, hbacklog.trans ?_⟩
  · exact ofFn_ports (Edge.length_outputs hrows) (Edge.getElem?_outputs hrows)
      fun port k => (port, receivedOn k log)
  · exact ofFn_ports (Edge.length_inputs hrows) (Edge.getElem?_inputs hrows)
      fun port k => (port, (suite.inputs.values port).length - (sentOn k log).length)

/-! ## Grids with one direction -/

/-- The node reads only what comes from above or from the right, and writes only downwards
and to the left. -/
def Flows {n : ℕ} (node : Node n) : Prop :=
  ∀ k, (node.reads k → node.ports .up = some k ∨ node.ports .right = some k) ∧
    (node.writes k → node.ports .down = some k ∨ node.ports .left = some k)

theorem AreBuilt.isExclusive_of_flows (hbuilt : layout.AreBuilt nodes)
    (hflows : ∀ node ∈ nodes, Flows node) (hrows : 0 < layout.rows) :
    (layout.gridOf nodes).wiring.IsExclusive suite := by
  have hlength : (layout.gridOf nodes).wiring.nodes.length = layout.rows * layout.cols :=
    hbuilt.length_eq
  have hinputs : (layout.gridOf nodes).wiring.inputs.length = layout.cols :=
    Edge.length_inputs hrows
  -- values only run rightwards and downwards: who reads is on one side, who writes on the other
  have hends : ∀ (index : ℕ) participant k,
      ((layout.gridOf nodes).wiring.participants suite)[index]? = some participant →
        (participant.reads k → Edge.Downstream index k) ∧
          (participant.writes k → Edge.Upstream index k) := by
    intro index participant k hindex
    rcases Bench.participants_cases hindex with ⟨node, hnode, rfl⟩ |
      ⟨port, j, rfl, hport, rfl⟩ | ⟨port, j, rfl, hport, rfl⟩
    · obtain ⟨row, col, rfl, hbuild⟩ := hbuilt.node_eq index node hnode
      obtain ⟨hreads, hwrites⟩ := hflows node (List.mem_of_getElem? hnode) k
      rw [(ports_of_buildNode hbuild).2] at hreads hwrites
      exact ⟨fun hread => Edge.downstream_of_ports (hreads hread),
        fun hwrite => Edge.upstream_of_ports (hwrites hwrite)⟩
    · -- a source only writes
      refine ⟨fun hread => absurd hread Bool.false_ne_true, fun hwrite => ?_⟩
      obtain rfl : j = k := eq_of_beq hwrite
      rw [hlength]
      exact Edge.upstream_of_inputs hrows hport
    · -- a sink only reads
      refine ⟨fun hread => ?_, fun hwrite => absurd hwrite Bool.false_ne_true⟩
      obtain rfl : j = k := eq_of_beq hread
      rw [hlength, hinputs]
      exact Edge.downstream_of_outputs hrows hport
  constructor
  case countP_reads_le =>
    exact fun k => countP_le_one fun i j a b hi hj ha hb =>
      ((hends i a k hi).1 ha).unique ((hends j b k hj).1 hb)
  case countP_writes_le =>
    exact fun k => countP_le_one fun i j a b hi hj ha hb =>
      ((hends i a k hi).2 ha).unique ((hends j b k hj).2 hb)

theorem room_of_capacity (nodes : List (Node (Edge.count layout.rows layout.cols)))
    (hcapacity : layout.capacity ≤ 2 ^ 63 - 3) (k : Fin (Edge.count layout.rows layout.cols)) :
    (layout.gridOf nodes).wiring.capacities.get k + 2 ≤ 2 ^ 63 - 1 :=
  Nat.add_le_add_right ((layout.capacities_gridOf nodes k).trans_le hcapacity) 2

end Layout

end NodeGrid

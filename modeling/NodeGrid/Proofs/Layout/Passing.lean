import NodeGrid.Proofs.Bench.Pipeline
import NodeGrid.Proofs.Layout.Flow

/-!
# Grids that pass values on

If all nodes of a grid run `MOV UP, DOWN`, then each column is a pipeline
(`IsPassing.isPipeline`), whatever happens in the other columns.  So it delivers one of its
values in every tick, no matter how high it is and what its channels can hold
(`delivered_of_isPassing`).
-/

namespace NodeGrid

namespace Layout

variable {layout : Layout} {nodes : List (Node (Edge.count layout.rows layout.cols))}
  {suite : Suite}

/-- The text of the program that passes values on downwards. -/
def passingText : String := "MOV UP, DOWN"

/-- Every position has the program that passes values on downwards. -/
structure IsPassing (layout : Layout) : Prop where
  fit : Fit layout.rows layout.cols layout.placements
  placed : ∀ (row : Fin layout.rows) (col : Fin layout.cols),
    ⟨row, col, passingText⟩ ∈ layout.placements

namespace IsPassing

variable (hpassing : layout.IsPassing)

include hpassing

theorem isNodeAt (row : Fin layout.rows) (col : Fin layout.cols) :
    layout.IsNodeAt row col ((vacant row col).load passingText) ∧
      ((vacant row col).load passingText).program = .passing .up .down := by
  refine isNodeAt_load (hpassing.placed row col) (eq_of_beq (by decide +kernel)) ?_
  simp [Program.passing, Instruction.ports, Operand.port?, Register.port?, Edge.ports]

theorem program_eq {row : Fin layout.rows} {col : Fin layout.cols}
    {node : Node (Edge.count layout.rows layout.cols)}
    (hnode : layout.buildNode row col = .ok node) :
    node = (vacant row col).load passingText ∧ node.program = .passing .up .down := by
  obtain ⟨hat, hprogram⟩ := hpassing.isNodeAt row col
  obtain rfl := hat.unique hpassing.fit hnode
  exact ⟨rfl, hprogram⟩

theorem flows (hbuilt : layout.AreBuilt nodes) : ∀ node ∈ nodes, Flows node := by
  intro node hmem k
  obtain ⟨index, hindex⟩ := List.mem_iff_getElem?.mp hmem
  obtain ⟨row, col, -, hnode⟩ := hbuilt.node_eq index node hindex
  obtain ⟨-, hprogram⟩ := hpassing.program_eq hnode
  exact ⟨fun hread => Or.inl ((Node.reads_passing_iff hprogram).mp hread),
    fun hwrite => Or.inl ((Node.writes_passing_iff hprogram).mp hwrite)⟩

/-- A column is a pipeline. -/
theorem isPipeline (hbuilt : layout.AreBuilt nodes) (hrows : 0 < layout.rows)
    (col : Fin layout.cols) : Bench.IsPipeline (layout.gridOf nodes).wiring suite
      (suite.inputs.values col) (Edge.column hrows col) := by
  constructor
  case source => exact exists_source hrows col
  case nodes =>
    intro row
    obtain ⟨task, node, hmember, hnode⟩ := hbuilt.exists_member row col
    obtain ⟨rfl, hprogram⟩ := hpassing.program_eq hnode
    exact ⟨task, _, .up, .down, hmember, ⟨_, _, Or.inr ⟨passingText, rfl⟩⟩, hprogram, rfl, rfl⟩
  case sink => exact exists_sink hrows col

end IsPassing

/-- A grid whose nodes all pass values on delivers at every output port one value of the
input port above it in each tick, in order, until there are no more. -/
theorem delivered_of_isPassing {layout : Layout} (hpassing : layout.IsPassing)
    (hrows : 0 < layout.rows) (hcapacity : layout.capacity ≤ 2 ^ 63 - 3) (suite : Suite)
    (ticks : ℕ) : ∃ grid bench, layout.build = .ok grid ∧
      (Bench.ofWiring grid.wiring suite .lockstep).performAll (List.replicate ticks .tick) =
        .ok bench ∧
      bench.evaluation.outputs = List.ofFn (fun port : Fin layout.cols => (port.val,
        (suite.inputs.values port).take (min ticks (suite.inputs.values port).length))) ∧
      bench.evaluation.backlog = List.ofFn fun port : Fin layout.cols => (port.val,
        (suite.inputs.values port).length - min ticks (suite.inputs.values port).length) := by
  obtain ⟨nodes, hbuild, hbuilt⟩ := exists_build hpassing.fit
    fun row col => ⟨_, (hpassing.isNodeAt row col).1⟩
  have hexclusive : (layout.gridOf nodes).wiring.IsExclusive suite :=
    hbuilt.isExclusive_of_flows (hpassing.flows hbuilt) hrows
  obtain ⟨bench, log, htime⟩ :=
    Bench.exists_timeline hbuilt.isFresh hexclusive (room_of_capacity nodes hcapacity)
  -- every column is a pipeline of its own
  have hdelivered := fun col =>
    htime.delivered_of_isPipeline (hpassing.isPipeline hbuilt hrows col) ticks
  obtain ⟨houtputs, hbacklog⟩ := evaluation_gridOf hrows (htime.orderly ticks)
  refine ⟨_, bench ticks, hbuild, htime.perform_eq ticks, ?_, ?_⟩
  · rw [houtputs]
    refine congrArg List.ofFn (funext fun port => ?_)
    exact congrArg (port.val, ·) ((hdelivered port).2.trans List.take_eq_take_min)
  · -- what is not taken from the source yet is still to come
    rw [hbacklog]
    refine congrArg List.ofFn (funext fun port => ?_)
    exact congrArg (fun sent => (port.val, (suite.inputs.values port).length - sent))
      (hdelivered port).1

/-- Four nodes that pass values on, over channels that hold none. -/
def shafts : Layout where
  rows := 2
  cols := 2
  capacity := 0
  placements := [⟨1, 0, "MOV UP, DOWN"⟩, ⟨0, 0, "MOV UP, DOWN"⟩, ⟨0, 1, "MOV UP, DOWN"⟩,
    ⟨1, 1, "MOV UP, DOWN"⟩]

/-- One column has delivered all of its values while the other one is on its way. -/
theorem delivered_shafts : shafts.IsPassing ∧ 0 < shafts.rows ∧ shafts.capacity ≤ 2 ^ 63 - 3 ∧
    ∃ grid bench, shafts.build = .ok grid ∧
      (Bench.ofWiring grid.wiring ⟨⟨[(0, [7, 8, 9]), (1, [6])]⟩, ⟨[]⟩⟩ .lockstep).performAll
        [.tick, .tick] = .ok bench ∧
      bench.evaluation.outputs = [(0, [7, 8]), (1, [6])] ∧
      bench.evaluation.backlog = [(0, 1), (1, 0)] := by
  have hpassing : shafts.IsPassing :=
    ⟨checkPlacements_nil_eq_ok_iff.mp (by decide), by decide⟩
  have hrows : 0 < shafts.rows := by decide
  have hcapacity : shafts.capacity ≤ 2 ^ 63 - 3 := by decide
  obtain ⟨grid, bench, hbuild, hperform, houtputs, hbacklog⟩ :=
    delivered_of_isPassing hpassing hrows hcapacity ⟨⟨[(0, [7, 8, 9]), (1, [6])]⟩, ⟨[]⟩⟩ 2
  exact ⟨hpassing, hrows, hcapacity, grid, bench, hbuild, hperform, houtputs.trans (by decide),
    hbacklog.trans (by decide)⟩

end Layout

end NodeGrid

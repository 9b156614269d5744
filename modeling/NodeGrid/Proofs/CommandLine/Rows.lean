import NodeGrid.CommandLine.Session
import NodeGrid.Proofs.Bench.Completion
import NodeGrid.Proofs.CommandLine.Assignments
import NodeGrid.Proofs.Layout.Building

/-!
# Programs in rows

The programs of a session are placed row by row on a grid with as many rows as they need.
The positions are those of the numbers of the programs, so they are different and within the
grid (`fit_layout`), and only the programs themselves can keep the grid from being built.
The node with the number of a program runs it, under the name of its position, and the nodes
that are left over in the last row are inert (`Session.Places`).

A suite that is made up of accepted assignments has only ports of the grid in it.  Each of
them is fed or checked at the node at the end of its own column (`Session.Serves`).
-/

namespace NodeGrid.CommandLine

open Layout (Fit)

/-- The suite is made up of assignments that are accepted with this number of columns. -/
def Accepts (columns : ℕ) (suite : Suite) : Prop :=
  ∃ inputTexts outputTexts, readAssignments .input columns .empty inputTexts = .ok suite.inputs ∧
    readAssignments .expect columns .empty outputTexts = .ok suite.outputs

theorem Accepts.lt {columns col : ℕ} {suite : Suite} {values : List Int64}
    (haccepts : Accepts columns suite)
    (hentry : suite.inputs.find? col = some values ∨ suite.outputs.find? col = some values) :
    col < columns := by
  obtain ⟨inputTexts, outputTexts, hinputs, houtputs⟩ := haccepts
  rcases hentry with hentry | hentry
  · exact lt_of_readAssignments hinputs hentry
  · exact lt_of_readAssignments houtputs hentry

/-- The suite of a configuration is made up of its assignments. -/
theorem accepts_of_ofArguments {arguments : Arguments} {config : Config}
    (hconfig : Config.ofArguments arguments = .ok config) :
    0 < config.columns ∧ Accepts config.columns config.suite := by
  obtain ⟨columns, -, hchecked⟩ := bind_eq_ok.mp hconfig
  obtain ⟨hcolumns, hrest⟩ := ite_error_eq_ok.mp hchecked
  obtain ⟨inputs, hinputs, hrest⟩ := bind_eq_ok.mp hrest
  obtain ⟨outputs, houtputs, hrest⟩ := bind_eq_ok.mp hrest
  dsimp only at hrest
  split at hrest
  all_goals
    obtain ⟨discipline, -, hrest⟩ := bind_eq_ok.mp hrest
    obtain ⟨capacity, -, hrest⟩ := bind_eq_ok.mp hrest
    obtain ⟨maxTicks, -, hreturn⟩ := bind_eq_ok.mp hrest
    cases hreturn
    exact ⟨Nat.pos_of_ne_zero hcolumns, _, _, hinputs, houtputs⟩

namespace Session

/-- The programs are on the nodes with their numbers, under the names of their positions.
There is no row without a program, and what is left over is inert. -/
structure Places (columns : ℕ) (sources : List String) (grid : Grid) : Prop where
  cols_eq : grid.cols = columns
  length_nodes : grid.wiring.nodes.length = grid.rows * columns
  /-- So all numbers are words if this sum is one. -/
  size_lt : grid.rows * columns < sources.length + columns
  loaded : ∀ index source, sources[index]? = some source → ∃ node compilation,
    grid.node? (index / columns) (index % columns) = some node ∧
    grid.wiring.nodes[index]? = some node ∧
    node.name = s!"{index / columns}:{index % columns}" ∧ node.source = source ∧
    Assembly.compile source = .ok compilation ∧ node.compilation = some compilation
  occupied : ∀ row < grid.rows, ∃ index < sources.length, index / columns = row
  vacant : ∀ index node, sources.length ≤ index → grid.wiring.nodes[index]? = some node →
    node = .inert s!"{index / columns}:{index % columns}" node.ports

/-- The columns of the suite are fed at the top of the grid and checked at its bottom. -/
structure Serves (grid : Grid) (suite : Suite) (discipline : Discipline) : Prop where
  nodes_eq : (Bench.ofWiring grid.wiring suite discipline).nodes = grid.wiring.nodes
  fed : ∀ col values, suite.inputs.find? col = some values → ∃ node k,
    grid.node? 0 col = some node ∧ node.ports .up = some k ∧
    (Bench.ofWiring grid.wiring suite discipline).sources[col]? = some (.ofValues values k)
  /-- What comes out at the bottom of a column is reported for the column. -/
  collected : ∀ col values, suite.outputs.find? col = some values → ∃ node k,
    grid.node? (grid.rows - 1) col = some node ∧ node.ports .down = some k ∧
    ∀ operations last,
      (Bench.ofWiring grid.wiring suite discipline).performAll operations = .ok last →
        ∃ sink, last.sinks[col]? = some sink ∧ sink.input = k ∧
          last.evaluation.outputs[col]? = some (col, sink.results)
  /-- It is counted against what is expected on the column. -/
  isComplete_iff : ∀ operations last,
    (Bench.ofWiring grid.wiring suite discipline).performAll operations = .ok last →
      (last.isComplete = true ↔ ∀ col values results, suite.outputs.find? col = some values →
        last.evaluation.outputs[col]? = some (col, results) → values.length ≤ results.length)

/-! ## Positions by number -/

section Positions

variable {columns index count row : ℕ}

/-- The number of rows that are needed. -/
theorem index_div_lt (hcolumns : 0 < columns) (hindex : index < count) :
    index / columns < (count + columns - 1) / columns := by
  have hnext : (index + columns) / columns ≤ (count + columns - 1) / columns :=
    Nat.div_le_div_right (by omega)
  rwa [Nat.add_div_right index hcolumns] at hnext

theorem row_mul_lt (hcolumns : 0 < columns) (hrow : row < (count + columns - 1) / columns) :
    row * columns < count := by
  have hnext : (row + 1) * columns ≤ count + columns - 1 :=
    (Nat.le_div_iff_mul_le hcolumns).mp hrow
  rw [Nat.succ_mul] at hnext
  omega

theorem index_eq_of_position {other : ℕ} (hrow : index / columns = other / columns)
    (hcol : index % columns = other % columns) : index = other := by
  rw [← Nat.div_add_mod index columns, hrow, hcol, Nat.div_add_mod]

end Positions

section Layouts

variable {columns capacity : ℕ} {sources : List String}

theorem mem_placements_iff {row col : ℕ} {source : String} :
    ⟨row, col, source⟩ ∈ (layout columns capacity sources).placements ↔
      ∃ index, sources[index]? = some source ∧ index / columns = row ∧ index % columns = col := by
  rw [layout, List.mem_mapIdx]
  simp only [Placement.mk.injEq]
  constructor
  · rintro ⟨index, hindex, rfl, rfl, rfl⟩
    exact ⟨index, List.getElem?_eq_getElem hindex, rfl, rfl⟩
  · rintro ⟨index, hsource, rfl, rfl⟩
    obtain ⟨hindex, rfl⟩ := List.getElem?_eq_some_iff.mp hsource
    exact ⟨index, hindex, rfl, rfl, rfl⟩

theorem map_position_placements :
    (layout columns capacity sources).placements.map Placement.position =
      (List.range sources.length).map fun index => (index / columns, index % columns) := by
  refine List.ext_getElem (by simp [layout]) fun index hindex hother => ?_
  simp [layout, Placement.position]

theorem fit_layout (hcolumns : 0 < columns) :
    Fit (layout columns capacity sources).rows (layout columns capacity sources).cols
      (layout columns capacity sources).placements where
  inside := by
    rintro ⟨row, col, source⟩ hmem
    obtain ⟨index, hindex, rfl, rfl⟩ := mem_placements_iff.mp hmem
    obtain ⟨hlt, -⟩ := List.getElem?_eq_some_iff.mp hindex
    exact ⟨index_div_lt hcolumns hlt, Nat.mod_lt index hcolumns⟩
  nodup := by
    rw [map_position_placements]
    refine List.nodup_range.map fun index other hsame => ?_
    obtain ⟨hrow, hcol⟩ := Prod.mk.inj hsame
    exact index_eq_of_position hrow hcol

/-- The program at the position with a number is the one with this number. -/
theorem source?_layout (hcolumns : 0 < columns) (index : ℕ) :
    (layout columns capacity sources).source? (index / columns) (index % columns) =
      sources[index]? := by
  refine Option.ext fun source => ?_
  rw [Layout.source?_eq_some_iff (fit_layout hcolumns), mem_placements_iff]
  constructor
  · rintro ⟨other, hother, hrow, hcol⟩
    rwa [← index_eq_of_position hrow hcol]
  · intro hsource
    exact ⟨index, hsource, rfl, rfl⟩

/-- Only a program that cannot be assembled keeps the grid from being built. -/
theorem exists_compile_of_build {broken : LayoutError} (hcolumns : 0 < columns)
    (hbuild : (layout columns capacity sources).build = .error broken) :
    ∃ index source error, sources[index]? = some source ∧
      broken = .compile (index / columns) (index % columns) error := by
  cases Layout.build_eq_iff_ends.mp hbuild with
  | misplaced hplacements hearlier hmisplaced =>
      have hunfit := Layout.exists_misplaced_iff.mp ⟨_, _, _, _, hplacements, hmisplaced⟩
      exact absurd (fit_layout hcolumns) hunfit
  | faulty hfit hfaulty hearlier =>
      obtain ⟨source, hmem, -⟩ := hfaulty
      obtain ⟨index, hsource, hrow, hcol⟩ := mem_placements_iff.mp hmem
      exact ⟨index, source, _, hsource, by rw [hrow, hcol]⟩

section Built

variable {grid : Grid} {nodes : List (Node (Edge.count (layout columns capacity sources).rows
  (layout columns capacity sources).cols))}

/-- What is built at the position with a number. -/
theorem exists_node_of_index (hcolumns : 0 < columns)
    (hbuilt : (layout columns capacity sources).AreBuilt nodes) {index : ℕ}
    (hrow : index / columns < (layout columns capacity sources).rows) :
    ∃ node, ((layout columns capacity sources).gridOf nodes).node? (index / columns)
        (index % columns) = some node ∧ nodes[index]? = some node ∧
      (layout columns capacity sources).buildNode ⟨index / columns, hrow⟩
        ⟨index % columns, Nat.mod_lt index hcolumns⟩ = .ok node := by
  obtain ⟨node, hlisted, hnode⟩ :=
    hbuilt.exists_node ⟨index / columns, hrow⟩ ⟨index % columns, Nat.mod_lt index hcolumns⟩
  have hlookup := Layout.node?_gridOf nodes ⟨index / columns, hrow⟩
    ⟨index % columns, Nat.mod_lt index hcolumns⟩
  have hindex : index / columns * columns + index % columns = index := Nat.div_add_mod' _ _
  refine ⟨node, hlookup.trans hlisted, ?_, hnode⟩
  rwa [← hindex]

theorem places_gridOf (hcolumns : 0 < columns)
    (hbuilt : (layout columns capacity sources).AreBuilt nodes) :
    Places columns sources ((layout columns capacity sources).gridOf nodes) where
  cols_eq := rfl
  length_nodes := hbuilt.length_eq
  size_lt := by
    -- the last row is the only one that may be left incomplete
    have hsize := Nat.div_mul_le_self (sources.length + columns - 1) columns
    change (sources.length + columns - 1) / columns * columns < sources.length + columns
    omega
  loaded index source hsource := by
    obtain ⟨hindex, -⟩ := List.getElem?_eq_some_iff.mp hsource
    obtain ⟨node, hlookup, hlisted, hnode⟩ :=
      exists_node_of_index hcolumns hbuilt (index_div_lt hcolumns hindex)
    rcases Layout.buildNode_eq_ok_iff.mp hnode with
      ⟨hnone, -⟩ | ⟨other, compilation, hother, hassemble, rfl⟩
    · rw [source?_layout hcolumns, hsource] at hnone
      cases hnone
    · rw [source?_layout hcolumns, hsource] at hother
      cases hother
      have hcompiled := (Node.assemble_eq_ok_iff.mp hassemble).1
      have hloaded := congrArg Except.toOption hassemble
      exact ⟨_, compilation, hlookup, hlisted, rfl, rfl, hcompiled, hloaded⟩
  occupied row hrow := by
    refine ⟨row * columns, row_mul_lt hcolumns hrow, Nat.mul_div_cancel row hcolumns⟩
  vacant index node hindex hnode := by
    obtain ⟨hlt, -⟩ := List.getElem?_eq_some_iff.mp hnode
    -- behind the last text the nodes are still within the rows
    have hrow : index / columns < (layout columns capacity sources).rows := by
      rw [Nat.div_lt_iff_lt_mul hcolumns]
      exact hlt.trans_eq hbuilt.length_eq
    obtain ⟨other, -, hlisted, hother⟩ := exists_node_of_index hcolumns hbuilt hrow
    cases hlisted.symm.trans hnode
    have hfree : (layout columns capacity sources).source? (index / columns) (index % columns) =
        none := by
      rw [source?_layout hcolumns, List.getElem?_eq_none hindex]
    rcases Layout.buildNode_eq_ok_iff.mp hother with ⟨-, rfl⟩ | ⟨source, -, hsource, -⟩
    · rfl
    · cases hfree.symm.trans hsource

/-- The columns of an accepted suite are those of the grid. -/
theorem serves_gridOf {suite : Suite} {discipline : Discipline} (hcolumns : 0 < columns)
    (hsources : sources ≠ []) (hbuilt : (layout columns capacity sources).AreBuilt nodes)
    (haccepts : Accepts columns suite) :
    Serves ((layout columns capacity sources).gridOf nodes) suite discipline := by
  -- with a text there is a row
  have hrows : 0 < (layout columns capacity sources).rows := by
    have hfirst := index_div_lt hcolumns (List.length_pos_iff.mpr hsources)
    rwa [Nat.zero_div] at hfirst
  constructor
  case nodes_eq => exact Bench.nodes_ofWiring
  case fed =>
    intro col values hvalues
    have hcol : col < columns := haccepts.lt (Or.inl hvalues)
    obtain ⟨node, hlisted, hnode⟩ := hbuilt.exists_node ⟨0, hrows⟩ ⟨col, hcol⟩
    have hlookup := (Layout.node?_gridOf nodes ⟨0, hrows⟩ ⟨col, hcol⟩).trans hlisted
    refine ⟨node, _, hlookup, congrFun (Layout.ports_of_buildNode hnode).2 .up, ?_⟩
    have hinput : (Edge.inputs (layout columns capacity sources).rows columns)[col]? = some _ :=
      (@Edge.getElem?_inputs_eq_some_iff _ _ ⟨col, hcol⟩ _).mpr ⟨⟨0, hrows⟩, rfl, rfl⟩
    have hfed : suite.inputs.values col = values := by
      rw [PortTable.values, hvalues]
      rfl
    rw [Bench.sources_ofWiring, List.getElem?_mapIdx, ← hfed]
    exact congrArg (Option.map _) hinput
  case collected =>
    intro col values hvalues
    have hcol : col < columns := haccepts.lt (Or.inr hvalues)
    have hlast := Nat.sub_one_lt_of_lt hrows
    obtain ⟨node, hlisted, hnode⟩ := hbuilt.exists_node ⟨_, hlast⟩ ⟨col, hcol⟩
    have hlookup := (Layout.node?_gridOf nodes ⟨_, hlast⟩ ⟨col, hcol⟩).trans hlisted
    refine ⟨node, _, hlookup, congrFun (Layout.ports_of_buildNode hnode).2 .down, ?_⟩
    have houtput : (Edge.outputs (layout columns capacity sources).rows columns)[col]? = some _ :=
      (@Edge.getElem?_outputs_eq_some_iff _ _ ⟨col, hcol⟩ _).mpr
        ⟨⟨_, hlast⟩, Nat.sub_add_cancel hrows, rfl⟩
    intro operations last hperform
    obtain ⟨sink, hsink, hinput⟩ := Bench.exists_sink_of_outputs hperform houtput
    refine ⟨sink, hsink, hinput, ?_⟩
    rw [Bench.getElem?_outputs, hsink]
    rfl
  case isComplete_iff => exact fun operations last => Bench.isComplete_iff_of_performAll

end Built

/-- Programs in rows have a grid, unless one of them cannot be assembled.  Each program is
on the node with its number, and what is fed and expected on the columns of an accepted
suite is fed and expected at the ends of these columns.  The suites of configurations are
accepted. -/
theorem places_of_build (capacity : ℕ) (hcolumns : 0 < columns) (hsources : sources ≠ []) :
    (∀ row col rows cols,
      (layout columns capacity sources).build ≠ .error (.outOfBounds row col rows cols)) ∧
    (∀ row col, (layout columns capacity sources).build ≠ .error (.occupied row col)) ∧
    (∀ broken, (layout columns capacity sources).build = .error broken →
      ∃ index source error, sources[index]? = some source ∧
        broken = .compile (index / columns) (index % columns) error) ∧
    (∀ grid, (layout columns capacity sources).build = .ok grid → Places columns sources grid ∧
      ∀ suite, Accepts columns suite → ∀ discipline, Serves grid suite discipline) ∧
    ∀ arguments config, Config.ofArguments arguments = .ok config →
      0 < config.columns ∧ Accepts config.columns config.suite := by
  refine ⟨fun row col rows cols hbuild => ?_, fun row col hbuild => ?_,
    fun broken => exists_compile_of_build hcolumns, fun grid hbuild => ?_,
    fun arguments config => accepts_of_ofArguments⟩
  · obtain ⟨index, source, error, -, hbroken⟩ := exists_compile_of_build hcolumns hbuild
    cases hbroken
  · obtain ⟨index, source, error, -, hbroken⟩ := exists_compile_of_build hcolumns hbuild
    cases hbroken
  · -- a grid that has been built places its texts, and serves what is fed to it
    obtain ⟨nodes, hbuilt, rfl⟩ := Layout.exists_of_build hbuild
    exact ⟨places_gridOf hcolumns hbuilt,
      fun suite haccepts discipline => serves_gridOf hcolumns hsources hbuilt haccepts⟩

end Layouts

/-- Three programs, which do not fill two rows of two nodes. -/
def uneven : List String := ["MOV UP, DOWN", "NOP", "MOV UP, RIGHT"]

/-- The columns of `0=1,2` on the way in and of `1=7` on the way out. -/
def unevenSuite : Suite := ⟨⟨[(0, [1, 2])]⟩, ⟨[(1, [7])]⟩⟩

theorem places_uneven : 0 < 2 ∧ uneven ≠ [] ∧ Accepts 2 unevenSuite ∧
    ∃ grid, (layout 2 1 uneven).build = .ok grid ∧ Places 2 uneven grid ∧
      Serves grid unevenSuite .lockstep := by
  have hsources : uneven ≠ [] := by decide
  have haccepts : Accepts 2 unevenSuite := ⟨["0=1,2"], ["1=7"], rfl, rfl⟩
  obtain ⟨-, -, -, hplaces, -⟩ := places_of_build 1 (by decide : 0 < 2) hsources
  have hok : (layout 2 1 uneven).build.toOption.any (fun _ => true) = true := by decide +kernel
  obtain ⟨grid, hbuild, -⟩ := exists_ok_of_any hok
  obtain ⟨hgrid, hserves⟩ := hplaces grid hbuild
  exact ⟨by decide, hsources, haccepts, grid, hbuild, hgrid, hserves _ haccepts _⟩

end Session

end NodeGrid.CommandLine

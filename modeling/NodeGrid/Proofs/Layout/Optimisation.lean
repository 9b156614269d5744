import NodeGrid.CommandLine.Session
import NodeGrid.Proofs.Bench.Optimisation
import NodeGrid.Proofs.Layout.Building

/-!
# Grids with optimised programs

A session that optimises loads in place of a program the written form of its optimised
instructions (`Layout.optimize`).  On a grid in which every channel has one reader and
one writer this cannot be seen in the results (`collectsAlike_of_optimize`).

A layout has a grid if its placements are at different positions within it and the node
at every position can be built (`build_eq_ok_iff`).  The optimised program of a node is
written, and read back as what it was (`Assembly.compileText_written`), and it asks for no
port that the original does not ask for.  So the node can be built again
(`exists_optimized_node`), and it is one with the optimised program
(`optimizes_of_buildNode`).  It asks for all of these ports, so a node that can be built
with the optimised program can be built with the original (`exists_original_node`).
-/

namespace NodeGrid

open List (Forall₂)

/-! ## Optimised layouts -/

/-- What a session that optimises loads from a file. -/
theorem loadProgram_eq_ok_iff {read : String → Except CommandLine.ReadError String}
    {path optimized : String} :
    CommandLine.Session.loadProgram read true path = .ok optimized ↔
      ∃ source, read path = .ok source ∧ ∃ compilation, Assembly.compile source = .ok compilation ∧
        optimized = compilation.program.optimize.text := by
  simp only [CommandLine.Session.loadProgram, if_true, bind_eq_ok, Assembly.mapError_eq_ok_iff]
  constructor
  · rintro ⟨source, hread, compilation, hcompile, hreturn⟩
    cases hreturn
    exact ⟨source, hread, compilation, hcompile, rfl⟩
  · rintro ⟨source, hread, compilation, hcompile, rfl⟩
    exact ⟨source, hread, compilation, hcompile, rfl⟩

/-- If a written program is compiled, then to itself. -/
theorem program_of_compile {program : Program} {compilation : Assembly.Compilation}
    (hcompile : Assembly.compile program.text = .ok compilation) :
    compilation.program = program := by
  rw [Assembly.compile_text_eq] at hcompile
  have hwritten := Assembly.compileText_written (Assembly.fitsWord_of_compileText hcompile)
  rw [hwritten] at hcompile
  cases hcompile
  rfl

namespace Node

variable {n : ℕ} {node : Node n} {source : String} {compilation reread : Assembly.Compilation}

/-- If a node accepts a program, it accepts what is written for the optimised program,
which asks for no other ports. -/
theorem exists_assemble_optimize (hassemble : node.assemble source = .ok compilation)
    (hlength : compilation.program.length ≤ 2 ^ 64) :
    ∃ reread, node.assemble compilation.program.optimize.text = .ok reread := by
  refine ⟨_, assemble_eq_ok_iff.mpr ⟨(Assembly.compile_text_eq _).trans
    (Assembly.compileText_written (Program.fitsWord_of_mem_optimize hlength)), ?_⟩⟩
  intro instruction hmem port hport
  obtain ⟨original, horiginal, hasks⟩ := (Program.within_optimize _).exists_port hmem hport
  exact (assemble_eq_ok_iff.mp hassemble).2 original horiginal port hasks

/-- If a node accepts what is written for an optimised program, it accepts the program,
whose uses of ports have all been kept. -/
theorem assemble_of_optimize (hcompile : Assembly.compile source = .ok compilation)
    (hreread : node.assemble compilation.program.optimize.text = .ok reread) :
    node.assemble source = .ok compilation := by
  obtain ⟨hagain, hconnected⟩ := assemble_eq_ok_iff.mp hreread
  rw [program_of_compile hagain] at hconnected
  refine assemble_eq_ok_iff.mpr ⟨hcompile, fun instruction hmem port hport => ?_⟩
  exact hconnected instruction (Program.mem_optimize_of_mem_ports hmem hport) port hport

end Node

namespace Layout

/-- The layout with the programs that a session with optimisation loads in place of those
of the layout. -/
def optimize (layout : Layout) : Except String Layout := do
  let placements ← layout.placements.mapM fun placement => do
    let source ← CommandLine.Session.loadProgram (fun _ => .ok placement.source) true ""
    return { placement with source }
  return { layout with placements }

/-- The second placement is at the same position, with the written optimised program. -/
def IsOptimized (placement optimized : Placement) : Prop :=
  ∃ compilation, Assembly.compile placement.source = .ok compilation ∧
    optimized = { placement with source := compilation.program.optimize.text }

theorem optimize_eq_ok_iff {layout replaced : Layout} : layout.optimize = .ok replaced ↔
    ∃ placements, Forall₂ IsOptimized layout.placements placements ∧
      replaced = { layout with placements } := by
  -- one placement first, the list is then a matter of `mapM`
  have hone : ∀ placement optimized : Placement, (do
      let source ← CommandLine.Session.loadProgram (fun _ => .ok placement.source) true ""
      return { placement with source }) = .ok optimized ↔ IsOptimized placement optimized := by
    intro placement optimized
    simp only [bind_eq_ok, loadProgram_eq_ok_iff, Except.ok.injEq, exists_eq_left', IsOptimized]
    constructor
    · rintro ⟨-, ⟨compilation, hcompile, rfl⟩, hpair⟩
      cases hpair
      exact ⟨compilation, hcompile, rfl⟩
    · rintro ⟨compilation, hcompile, rfl⟩
      exact ⟨_, ⟨compilation, hcompile, rfl⟩, rfl⟩
  simp only [optimize, bind_eq_ok, mapM_eq_ok_iff, hone]
  constructor
  · rintro ⟨placements, hplacements, hpair⟩
    cases hpair
    exact ⟨placements, hplacements, rfl⟩
  · rintro ⟨placements, hplacements, rfl⟩
    exact ⟨placements, hplacements, rfl⟩

section Built

variable {layout : Layout} {row : Fin layout.rows} {col : Fin layout.cols}
  {node other : Node (Edge.count layout.rows layout.cols)} {placements : List Placement}
  {capacity : ℕ}

theorem source?_cases (hplacements : Forall₂ IsOptimized layout.placements placements)
    (capacity row col : ℕ) :
    layout.source? row col = none ∧ { layout with capacity, placements }.source? row col = none ∨
      ∃ source compilation, layout.source? row col = some source ∧
        Assembly.compile source = .ok compilation ∧
        { layout with capacity, placements }.source? row col =
          some compilation.program.optimize.text := by
  unfold source?
  dsimp only
  -- the position is looked up in both lists alike, as optimising keeps the positions
  generalize layout.placements = originals at hplacements ⊢
  induction hplacements with
  | nil => exact Or.inl ⟨rfl, rfl⟩
  | @cons placement optimized rest others hone _ ih =>
      obtain ⟨compilation, hcompile, rfl⟩ := hone
      cases hhere : placement.row == row && placement.col == col with
      | true =>
          simp only [List.find?_cons, hhere]
          exact Or.inr ⟨placement.source, compilation, rfl, hcompile, rfl⟩
      | false =>
          simp only [List.find?_cons, hhere]
          exact ih

/-- The node that is built from the written optimised program runs that program. -/
theorem optimizes_of_buildNode (hplacements : Forall₂ IsOptimized layout.placements placements)
    (hnode : layout.buildNode row col = .ok node)
    (hother : { layout with capacity, placements }.buildNode row col = .ok other) :
    node.Optimizes other := by
  rw [buildNode_eq_ok_iff] at hnode hother
  rcases source?_cases hplacements capacity row col with
    ⟨hnone, hnoneOther⟩ | ⟨source, compiled, hsource, hcompiled, hsourceOther⟩
  · -- no program at this position, before or after
    simp only [hnone, hnoneOther, reduceCtorEq, false_and, exists_false, or_false, true_and]
      at hnode hother
    subst hnode hother
    exact ⟨⟨_, _, Or.inl rfl⟩, ⟨_, _, Or.inl rfl⟩, rfl, Program.optimize_nil.symm⟩
  · simp only [hsource, hsourceOther, reduceCtorEq, false_and, false_or, Option.some.injEq]
      at hnode hother
    obtain ⟨_, compilation, rfl, hassemble, rfl⟩ := hnode
    obtain ⟨_, reread, rfl, hreread, rfl⟩ := hother
    refine ⟨⟨_, _, Or.inr ⟨_, rfl⟩⟩, ⟨_, _, Or.inr ⟨_, rfl⟩⟩, rfl, ?_⟩
    rw [Node.program_load hassemble, Node.program_load hreread]
    -- what was compiled to be optimised is what the node runs
    have hcompile := hcompiled.symm.trans (Node.assemble_eq_ok_iff.mp hassemble).1
    cases hcompile
    exact program_of_compile (Node.assemble_eq_ok_iff.mp hreread).1

/-- A node can be built with its optimised program. -/
theorem exists_optimized_node (hplacements : Forall₂ IsOptimized layout.placements placements)
    (hnode : layout.buildNode row col = .ok node) (hlength : node.program.length ≤ 2 ^ 64)
    (capacity : ℕ) :
    ∃ other, { layout with capacity, placements }.buildNode row col = .ok other := by
  simp only [buildNode_eq_ok_iff] at hnode ⊢
  rcases source?_cases hplacements capacity row col with
    ⟨-, hnoneOther⟩ | ⟨source, compiled, hsource, hcompiled, hsourceOther⟩
  · exact ⟨_, Or.inl ⟨hnoneOther, rfl⟩⟩
  · simp only [hsource, reduceCtorEq, false_and, false_or, Option.some.injEq] at hnode
    obtain ⟨_, compilation, rfl, hassemble, rfl⟩ := hnode
    rw [Node.program_load hassemble] at hlength
    have hcompile := hcompiled.symm.trans (Node.assemble_eq_ok_iff.mp hassemble).1
    cases hcompile
    obtain ⟨reread, hreread⟩ := Node.exists_assemble_optimize hassemble hlength
    exact ⟨_, Or.inr ⟨_, reread, hsourceOther, hreread, rfl⟩⟩

/-- A node that can be built with its optimised program can be built without. -/
theorem exists_original_node (hplacements : Forall₂ IsOptimized layout.placements placements)
    (hother : { layout with capacity, placements }.buildNode row col = .ok other) :
    ∃ node, layout.buildNode row col = .ok node := by
  simp only [buildNode_eq_ok_iff] at hother ⊢
  rcases source?_cases hplacements capacity row col with
    ⟨hnone, -⟩ | ⟨source, compilation, hsource, hcompile, hsourceOther⟩
  · exact ⟨_, Or.inl ⟨hnone, rfl⟩⟩
  · simp only [hsourceOther, reduceCtorEq, false_and, false_or, Option.some.injEq] at hother
    obtain ⟨_, reread, rfl, hreread, -⟩ := hother
    exact ⟨_, Or.inr ⟨_, compilation, hsource, Node.assemble_of_optimize hcompile hreread, rfl⟩⟩

end Built

section Grids

variable {layout : Layout} {placements : List Placement} {capacity : ℕ}
  {nodes others : List (Node (Edge.count layout.rows layout.cols))}

/-- Every program on a grid can be compiled, and so optimised. -/
theorem exists_isOptimized {grid : Grid} (hbuild : layout.build = .ok grid) :
    ∃ placements, Forall₂ IsOptimized layout.placements placements := by
  obtain ⟨hcheck, nodes, hnodes, -⟩ := build_eq_ok_iff.mp hbuild
  refine exists_forall₂ fun placement hmem => ?_
  obtain ⟨⟨hrow, hcol⟩, -⟩ := (checkPlacements_eq_ok_iff.mp hcheck).1 placement hmem
  obtain ⟨node, -, hnode⟩ := exists_of_forall₂ hnodes (mem_positions ⟨_, hrow⟩ ⟨_, hcol⟩)
  have hsource := source?_of_mem hcheck hmem
  simp only [buildNode_eq_ok_iff, hsource, reduceCtorEq, false_and, false_or,
    Option.some.injEq] at hnode
  obtain ⟨_, compilation, rfl, hassemble, -⟩ := hnode
  exact ⟨_, compilation, (Node.assemble_eq_ok_iff.mp hassemble).1, rfl⟩

/-- Placements are checked by their positions only. -/
theorem checkPlacements_eq_of_isOptimized {originals replaced : List Placement}
    (hplacements : Forall₂ IsOptimized originals replaced) (rows cols : ℕ)
    (taken : List (ℕ × ℕ)) :
    checkPlacements rows cols taken replaced = checkPlacements rows cols taken originals := by
  induction hplacements generalizing taken with
  | nil => rfl
  | cons hone _ ih =>
      obtain ⟨compilation, -, rfl⟩ := hone
      simp only [checkPlacements, ih]

/-- A grid whose programs are no longer than indices can count is built again with
optimised programs. -/
theorem exists_build_optimized {grid : Grid} (hbuild : layout.build = .ok grid)
    (hplacements : Forall₂ IsOptimized layout.placements placements)
    (hlength : ∀ node ∈ grid.wiring.nodes, node.program.length ≤ 2 ^ 64) (capacity : ℕ) :
    ∃ optimized, { layout with capacity, placements }.build = .ok optimized := by
  obtain ⟨hcheck, nodes, hnodes, rfl⟩ := build_eq_ok_iff.mp hbuild
  have hothers : ∀ position ∈ positions layout.rows layout.cols, ∃ other,
      { layout with capacity, placements }.buildNode position.1 position.2 = .ok other := by
    intro position hposition
    obtain ⟨node, hmem, hnode⟩ := exists_of_forall₂ hnodes hposition
    exact exists_optimized_node hplacements hnode (hlength node hmem) capacity
  have hchecked := (checkPlacements_eq_of_isOptimized hplacements _ _ []).trans hcheck
  obtain ⟨others, hothers⟩ := exists_forall₂ hothers
  exact ⟨_, build_eq_ok_iff.mpr ⟨hchecked, others, hothers, rfl⟩⟩

/-- A layout has a grid if it has one with optimised programs. -/
theorem exists_build_original (hplacements : Forall₂ IsOptimized layout.placements placements)
    {optimized : Grid} (hbuild : { layout with capacity, placements }.build = .ok optimized) :
    ∃ grid, layout.build = .ok grid := by
  obtain ⟨hcheck, others, hothers, -⟩ := build_eq_ok_iff.mp hbuild
  have hnodes : ∀ position ∈ positions layout.rows layout.cols, ∃ node,
      layout.buildNode position.1 position.2 = .ok node := by
    intro position hposition
    obtain ⟨other, -, hother⟩ := exists_of_forall₂ hothers hposition
    exact exists_original_node hplacements hother
  have hchecked := (checkPlacements_eq_of_isOptimized hplacements _ _ []).symm.trans hcheck
  obtain ⟨nodes, hnodes⟩ := exists_forall₂ hnodes
  exact ⟨_, build_eq_ok_iff.mpr ⟨hchecked, nodes, hnodes, rfl⟩⟩

/-- The grid with optimised programs is the same otherwise. -/
theorem wiring_optimizes (hplacements : Forall₂ IsOptimized layout.placements placements)
    (hnodes : Forall₂ (fun position node => layout.buildNode position.1 position.2 = .ok node)
      (positions layout.rows layout.cols) nodes)
    (hothers : Forall₂ (fun position other =>
      { layout with capacity, placements }.buildNode position.1 position.2 = .ok other)
      (positions layout.rows layout.cols) others) :
    (layout.gridOf nodes).wiring.Optimizes
      ({ layout with capacity, placements }.gridOf others).wiring where
  nodes := by
    refine forall₂_of_common (fun position node other hnode hother => ?_) hnodes hothers
    exact optimizes_of_buildNode hplacements hnode hother
  inputs_eq := rfl
  outputs_eq := rfl

end Grids

/-- Optimised programs do not change the results of a grid in which every channel has one
reader and one writer, whatever the capacities and the schedules are.  The programs can be
optimised, and if they are no longer than indices can count, the grid is built again. -/
theorem collectsAlike_of_optimize {layout : Layout} {grid : Grid}
    (hbuild : layout.build = .ok grid) {suite : Suite} (hexclusive : grid.wiring.IsExclusive suite)
    (hroom : layout.capacity + 2 ≤ 2 ^ 63 - 1) {capacity : ℕ}
    (hcapacity : capacity + 2 ≤ 2 ^ 63 - 1) :
    ∃ replaced, layout.optimize = .ok replaced ∧
      ((∀ node ∈ grid.wiring.nodes, node.program.length ≤ 2 ^ 64) →
        ∃ optimized, { replaced with capacity }.build = .ok optimized) ∧
      ∀ optimized, { replaced with capacity }.build = .ok optimized →
        ∀ (early late : Discipline) (operations : List (Bench.Operation grid.wiring.size))
          (others : List (Bench.Operation optimized.wiring.size)),
          (∀ task text, .load task text ∉ operations) → (∀ task text, .load task text ∉ others) →
          ∃ bench other,
            (Bench.ofWiring grid.wiring suite early).performAll operations = .ok bench ∧
            (Bench.ofWiring optimized.wiring suite late).performAll others = .ok other ∧
            bench.evaluation.outputs.map Prod.fst = List.range grid.wiring.outputs.length ∧
            Forall₂ CollectsAlike bench.evaluation.outputs other.evaluation.outputs := by
  obtain ⟨placements, hplacements⟩ := exists_isOptimized hbuild
  refine ⟨_, optimize_eq_ok_iff.mpr ⟨placements, hplacements, rfl⟩,
    fun hlength => exists_build_optimized hbuild hplacements hlength capacity, ?_⟩
  intro optimized hoptimized early late operations others hkeep hkeepOthers
  -- the two grids differ in their programs and in the capacity of every channel
  obtain ⟨-, nodes, hnodes, rfl⟩ := build_eq_ok_iff.mp hbuild
  obtain ⟨-, replacing, hreplacing, rfl⟩ := build_eq_ok_iff.mp hoptimized
  refine (wiring_optimizes hplacements hnodes hreplacing).collectsAlike hexclusive (fun k => ?_)
    (fun k => ?_) early late hkeep hkeepOthers
  · exact (Nat.add_le_add_right (Vector.getElem_replicate k.isLt).le 2).trans hroom
  · exact (Nat.add_le_add_right (Vector.getElem_replicate k.isLt).le 2).trans hcapacity

/-- Two nodes, one above the other.  The first adds one to its values, the second passes
them on. -/
def pipe : Layout where
  rows := 2
  cols := 1
  capacity := 1
  placements := [⟨0, 0, "MOV UP, ACC\nSUB -1\nMOV ACC, DOWN"⟩, ⟨1, 0, "MOV UP, DOWN\nMOV ACC, NIL"⟩]

/-- Values for the pipe. -/
def pipeSuite : Suite := ⟨⟨[(0, [7, 8, 9])]⟩, ⟨[(0, [8, 9])]⟩⟩

/-- Whether a grid meets what is asked of it, and has collected a value after five ticks. -/
def isSimple (grid : Grid) : Bool :=
  decide (∀ k, (grid.wiring.participants pipeSuite).countP (·.reads k) ≤ 1 ∧
    (grid.wiring.participants pipeSuite).countP (·.writes k) ≤ 1) &&
      (grid.wiring.nodes.all fun node => node.program.length ≤ 2 ^ 64) &&
      ((Bench.ofWiring grid.wiring pipeSuite .lockstep).performAll
        [.tick, .settle, .tick, .run 3]).toOption.any fun bench =>
          bench.evaluation.outputs == [(0, [8])]

/-- One pipe is ticked in lockstep until its first value is through, the one with optimised
programs runs with more room. -/
theorem collectsAlike_pipe : ∃ (grid : Grid) (replaced : Layout) (optimized : Grid),
    pipe.build = .ok grid ∧ grid.wiring.IsExclusive pipeSuite ∧ pipe.capacity + 2 ≤ 2 ^ 63 - 1 ∧
    5 + 2 ≤ 2 ^ 63 - 1 ∧ pipe.optimize = .ok replaced ∧
    { replaced with capacity := 5 }.build = .ok optimized ∧
    ∃ bench other,
      (Bench.ofWiring grid.wiring pipeSuite .lockstep).performAll [.tick, .settle, .tick, .run 3] =
        .ok bench ∧
      (Bench.ofWiring optimized.wiring pipeSuite .firstSettled).performAll [.tick, .run 20] =
        .ok other ∧
      bench.evaluation.outputs = [(0, [8])] ∧
      Forall₂ CollectsAlike bench.evaluation.outputs other.evaluation.outputs := by
  -- what can be computed of the pipe is computed here, once
  have hpipe : pipe.build.toOption.any isSimple = true := by decide +kernel
  obtain ⟨grid, hbuild, hsimple⟩ := exists_ok_of_any hpipe
  obtain ⟨hsmall, hcollected⟩ := Bool.and_eq_true_iff.mp hsimple
  obtain ⟨hends, hlength⟩ := Bool.and_eq_true_iff.mp hsmall
  have hends := of_decide_eq_true hends
  have hexclusive : grid.wiring.IsExclusive pipeSuite :=
    ⟨fun k => (hends k).1, fun k => (hends k).2⟩
  have hroom : pipe.capacity + 2 ≤ 2 ^ 63 - 1 := by decide
  have hcapacity : 5 + 2 ≤ 2 ^ 63 - 1 := by decide
  obtain ⟨replaced, hreplaced, hexists, hcollect⟩ :=
    collectsAlike_of_optimize hbuild hexclusive hroom hcapacity
  obtain ⟨optimized, hoptimized⟩ := hexists (by simpa using hlength)
  obtain ⟨bench, other, hbench, hother, -, houtputs⟩ := hcollect optimized hoptimized .lockstep
    .firstSettled [.tick, .settle, .tick, .run 3] [.tick, .run 20] (by simp) (by simp)
  rw [hbench] at hcollected
  exact ⟨grid, replaced, optimized, hbuild, hexclusive, hroom, hcapacity, hreplaced, hoptimized,
    bench, other, hbench, hother, eq_of_beq hcollected, houtputs⟩

end Layout

end NodeGrid

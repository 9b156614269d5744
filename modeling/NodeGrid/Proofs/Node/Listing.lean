import NodeGrid.Node.Report
import NodeGrid.Proofs.Assembly.Spacing
import NodeGrid.Proofs.Assembly.Translation
import NodeGrid.Proofs.Node.Deeds
import NodeGrid.Proofs.Node.Loading

/-!
# The current line of a listing

The listing of a node shows the lines of its source and marks one of them.  While the node
has instructions, this is the line of the instruction that was started last; without
instructions, no line is marked (`listing_of_reached`).

Whatever happens to a node between two loads, it keeps its source and its program and
stays inside of the program (`Later.advances`).  Each instruction has its line in the line
map, and this line holds the instruction by itself, up to the index of a label
(`linkAll_getElem?`).  That map counts the lines of the text that is compiled, where every
line break starts a line and a carriage return is blank space; the shown lines have the
same numbers and hold the same (`map_lineDraft?_displayLinesOf`).
-/

namespace NodeGrid

open Assembly (CompileError Compilation Statement Draft LabelTable)

/-! ## What a line holds by itself -/

namespace Assembly

/-- The instruction that is read off a line, with labels where others may have to say which
index is meant. -/
def lineDraft? (line : List Char) : Option Draft := do
  let tokens ← (Token.scan (Text.Uppercase.ofText line)).toOption
  let statement ← (Statement.ofTokens tokens).toOption
  statement.draft

/-- The lines of a text hold what its statements say. -/
theorem map_lineDraft?_of_readStatements {text : List Char} {statements : List Statement}
    (hread : readStatements text = .ok statements) :
    (text.splitOn '\n').map lineDraft? = statements.map Statement.draft := by
  rw [readStatements_eq_ok_iff, Text.Uppercase.splitOn_ofText, List.forall₂_map_left_iff] at hread
  rw [← List.forall₂_eq_eq_eq, List.forall₂_map_left_iff, List.forall₂_map_right_iff]
  refine hread.imp ?_
  rintro line statement ⟨tokens, hlexes, hline⟩
  have hread : Statement.ofTokens tokens = .ok statement := (ofTokens_eq_ok_iff hlexes).mpr hline
  simp [lineDraft?, hlexes.scan, hread, Except.toOption]

theorem exists_target_of_link {table : LabelTable} {draft : Draft} {instruction : Instruction}
    (hlink : draft.link table = .ok instruction) : ∃ target, draft.instruction target = instruction := by
  cases draft with
  | ready ready =>
      cases hlink
      exact ⟨fun _ => 0, rfl⟩
  | toLabel condition label =>
      obtain ⟨target, -, hjump⟩ := bind_eq_ok.mp hlink
      cases hjump
      exact ⟨fun _ => target, rfl⟩

/-- Each linked instruction is that of the line it is placed on, and there are as many
instructions in front of this line as in front of the instruction. -/
theorem linkAll_getElem? {table : LabelTable} {line index place : ℕ} {statements : List Statement}
    {placed : List (Instruction × ℕ)} {instruction : Instruction}
    (hlink : linkAll table line statements = .ok placed)
    (hplaced : placed[index]? = some (instruction, place)) :
    ∃ offset draft target, place = line + offset ∧
      (statements.map Statement.draft)[offset]? = some (some draft) ∧
      ((statements.map Statement.draft).take offset).countP Option.isSome = index ∧
      draft.instruction target = instruction := by
  induction statements generalizing line index placed with
  | nil =>
      cases hlink
      cases hplaced
  | cons statement rest ih =>
      obtain ⟨labels, _ | draft⟩ := statement
      · -- a line without an instruction moves the others on by one line, but not in their count
        obtain ⟨offset, draft, target, rfl, hdraft, hcount, hsame⟩ := ih hlink hplaced
        exact ⟨offset + 1, draft, target, by omega, hdraft, by simpa using hcount, hsame⟩
      · obtain ⟨first, hfirst, hrest⟩ := bind_eq_ok.mp hlink
        obtain ⟨others, hothers, hpair⟩ := bind_eq_ok.mp hrest
        cases hpair
        cases index with
        | zero =>
            cases hplaced
            obtain ⟨target, hsame⟩ := exists_target_of_link (mapError_eq_ok_iff.mp hfirst)
            exact ⟨0, draft, target, rfl, rfl, rfl, hsame⟩
        | succ index =>
            obtain ⟨offset, draft, target, rfl, hdraft, hcount, hsame⟩ := ih hothers hplaced
            exact ⟨offset + 1, draft, target, by omega, hdraft, by simpa using hcount, hsame⟩

/-- The instruction of each index is that of its line. -/
theorem exists_line_of_compile {source : String} {compilation : Compilation} {index : ℕ}
    (hcompile : compile source = .ok compilation) (hindex : index < compilation.program.length) :
    ∃ place draft target, compilation.lineMap[index]? = some place ∧
      ((source.toList.splitOn '\n').map lineDraft?)[place]? = some (some draft) ∧
      (((source.toList.splitOn '\n').map lineDraft?).take place).countP Option.isSome = index ∧
      compilation.program[index]? = some (draft.instruction target) := by
  obtain ⟨statements, hread, hstatements⟩ := bind_eq_ok.mp hcompile
  obtain ⟨table, -, hlinked⟩ := bind_eq_ok.mp hstatements
  obtain ⟨placed, hlink, hreturn⟩ := bind_eq_ok.mp hlinked
  cases hreturn
  rw [List.length_map] at hindex
  have hplaced := List.getElem?_eq_getElem hindex
  obtain ⟨offset, draft, target, hplace, hdraft, hcount, hsame⟩ := linkAll_getElem? hlink hplaced
  -- lines are counted from the first one
  rw [Nat.zero_add] at hplace
  rw [map_lineDraft?_of_readStatements hread]
  refine ⟨offset, draft, target, ?_, hdraft, hcount, ?_⟩
  · rw [List.getElem?_map, hplaced, ← hplace]
    rfl
  · rw [List.getElem?_map, hplaced, hsame]
    rfl

/-! ## The lines that are shown -/

/-- Without the carriage return at its end a line holds the same. -/
theorem lineDraft?_dropCarriageReturn (line : List Char) :
    lineDraft? (Text.dropCarriageReturn line) = lineDraft? line := by
  unfold Text.dropCarriageReturn
  split
  · rename_i hlast
    have hline : line.dropLast ++ Filler.text ⟨[⟨'\r', rfl⟩], none⟩ = line :=
      List.dropLast_append_getLast? '\r' hlast
    have hscan := Filler.scan_line ⟨[⟨'\r', rfl⟩], none⟩ line.dropLast
    rw [hline] at hscan
    rw [lineDraft?, lineDraft?, hscan]
  · rfl

/-- The shown lines hold what the lines hold, and what is not shown holds nothing. -/
theorem map_lineDraft?_displayLinesOf (lines : List (List Char)) :
    ∃ more, lines.map lineDraft? = (Text.displayLinesOf lines).map lineDraft? ++ more ∧
      ∀ draft ∈ more, draft = none := by
  fun_induction Text.displayLinesOf lines with
  | case1 => exact ⟨[], rfl, by simp⟩
  | case2 last hempty =>
      obtain rfl := List.isEmpty_iff.mp hempty
      have hscan : Token.scan [] = .ok [] := by rw [Token.scan]
      have hnone : lineDraft? [] = none := by
        rw [lineDraft?, Text.Uppercase.ofText_nil, hscan]
        rfl
      exact ⟨[none], by rw [List.map_singleton, hnone]; rfl, by simp⟩
  | case3 last hne => exact ⟨[], by simp, by simp⟩
  | case4 line rest hrest ih =>
      obtain ⟨more, hmore, hnone⟩ := ih
      refine ⟨more, ?_, hnone⟩
      rw [List.map_cons, List.map_cons, lineDraft?_dropCarriageReturn, hmore, List.cons_append]

theorem subset_of_mem_displayLinesOf {lines : List (List Char)} {shown : List Char}
    (hmem : shown ∈ Text.displayLinesOf lines) : ∃ line ∈ lines, shown ⊆ line := by
  fun_induction Text.displayLinesOf lines with
  | case1 => cases hmem
  | case2 last hempty => cases hmem
  | case3 last hne =>
      obtain rfl := List.mem_singleton.mp hmem
      exact ⟨shown, List.mem_cons_self, fun c hc => hc⟩
  | case4 line rest hrest ih =>
      rcases List.mem_cons.mp hmem with rfl | hlater
      · refine ⟨line, List.mem_cons_self, ?_⟩
        unfold Text.dropCarriageReturn
        split
        · exact List.dropLast_subset line
        · exact fun c hc => hc
      · obtain ⟨other, hother, hsubset⟩ := ih hlater
        exact ⟨other, List.mem_cons_of_mem line hother, hsubset⟩

theorem not_newline_mem_displayLines {text shown : List Char}
    (hmem : shown ∈ Text.displayLines text) : '\n' ∉ shown := by
  obtain ⟨line, hline, hsubset⟩ := subset_of_mem_displayLinesOf hmem
  exact fun hbreak => Text.not_newline_mem_of_mem_splitOn hline (hsubset hbreak)

/-- The instruction of each index is that of its line as it is shown. -/
theorem exists_shown_of_compile {source : String} {compilation : Compilation} {index : ℕ}
    (hcompile : compile source = .ok compilation) (hindex : index < compilation.program.length) :
    ∃ place line draft target, compilation.lineMap[index]? = some place ∧
      (Text.displayLines source.toList)[place]? = some line ∧ lineDraft? line = some draft ∧
      ((Text.displayLines source.toList).take place).countP (fun line => (lineDraft? line).isSome) =
        index ∧
      compilation.program[index]? = some (draft.instruction target) := by
  obtain ⟨place, draft, target, hplace, hdraft, hcount, hinstruction⟩ :=
    exists_line_of_compile hcompile hindex
  -- the lines that are not shown have no instructions
  obtain ⟨more, hmore, hnone⟩ := map_lineDraft?_displayLinesOf (source.toList.splitOn '\n')
  rw [hmore, ← Text.displayLines] at hdraft hcount
  have hshown : place < ((Text.displayLines source.toList).map lineDraft?).length := by
    by_contra hbeyond
    rw [List.getElem?_append_right (Nat.le_of_not_lt hbeyond)] at hdraft
    cases hnone _ (List.mem_of_getElem? hdraft)
  rw [List.getElem?_append_left hshown, List.getElem?_map] at hdraft
  rw [List.take_append_of_le_length (Nat.le_of_lt hshown), ← List.map_take, List.countP_map] at hcount
  obtain ⟨line, hline, hholds⟩ := Option.map_eq_some_iff.mp hdraft
  exact ⟨place, line, draft, target, hplace, hline, hholds, hcount, hinstruction⟩

end Assembly

/-! ## What a node keeps of its program -/

namespace Node

variable {n : ℕ} {node after first second third : Node n} {τ : Type} {task : τ}
  {fabric rest : Fabric τ n} {progress : Progress}

/-- If the node has instructions, the one started last and the next one are among them. -/
def InProgram (node : Node n) : Prop :=
  node.program ≠ [] → node.ip < node.program.length ∧ node.nextIp < node.program.length

/-- The second node is the first one further on in the same program. -/
structure Advances (first second : Node n) : Prop where
  source_eq : second.source = first.source
  compilation_eq : second.compilation = first.compilation
  inProgram : first.InProgram → second.InProgram

theorem Advances.refl (node : Node n) : node.Advances node := ⟨rfl, rfl, id⟩

theorem Advances.trans (hfirst : first.Advances second) (hsecond : second.Advances third) :
    first.Advances third where
  source_eq := hsecond.source_eq.trans hfirst.source_eq
  compilation_eq := hsecond.compilation_eq.trans hfirst.compilation_eq
  inProgram := hsecond.inProgram ∘ hfirst.inProgram

theorem advances_finish (node : Node n) (target : Option ℕ) : node.Advances (node.finish target) where
  source_eq := rfl
  compilation_eq := rfl
  inProgram := by
    intro hin hprogram
    rw [program_finish] at hprogram ⊢
    rw [nextIp_finish hprogram]
    exact ⟨(hin hprogram).1, Nat.mod_lt _ (List.length_pos_of_ne_nil hprogram)⟩

theorem advances_pauseAfterRead {value : Int64} {pause : Pause n}
    (hpause : node.pauseAfterRead value = .ok pause) : node.Advances pause.node := by
  obtain ⟨acc, target, rfl⟩ | ⟨_, port, -, -, rfl⟩ := pauseAfterRead_eq_ok hpause
  · have hacc : node.Advances { node with acc } := ⟨rfl, rfl, id⟩
    exact hacc.trans (advances_finish _ target)
  · exact .refl node

theorem advances_demandExecute {demand : Demand n} (hdemand : node.demandExecute = .ok demand) :
    node.Advances demand.node := by
  obtain ⟨acc, bak, target, rfl⟩ | ⟨value, pause, hpause, rfl⟩ | ⟨_, port, -, -, rfl⟩ :=
    demandExecute_eq_ok hdemand
  · have hregisters : node.Advances { node with acc, bak } := ⟨rfl, rfl, id⟩
    exact hregisters.trans (advances_finish _ target)
  · exact advances_pauseAfterRead hpause
  · exact .refl node

theorem advances_demand {demand : Demand n} (hdemand : node.demand = .ok demand) :
    node.Advances demand.node := by
  rw [demand_eq] at hdemand
  split at hdemand
  · cases hdemand
    exact ⟨rfl, rfl, id⟩
  · have hstarted : node.Advances { node.stall with ip := node.nextIp } :=
      ⟨rfl, rfl, fun hin hprogram => ⟨(hin hprogram).2, (hin hprogram).2⟩⟩
    exact hstarted.trans (advances_demandExecute hdemand)

end Node

theorem Pause.Served.advances {n : ℕ} {τ : Type} {task : τ} {fabric rest : Fabric τ n} {pause : Pause n}
    {deeds : List (Deed n)} {after : Node n} (hserved : pause.Served task fabric deeds after rest) :
    pause.node.Advances after := by
  cases hserved with
  | settled => exact .refl _
  | delivered hport hsend => exact Node.advances_finish _ none
  | blocked hport hsend => exact ⟨rfl, rfl, id⟩

theorem Demand.Served.advances {n : ℕ} {τ : Type} {task : τ} {fabric rest : Fabric τ n}
    {demand : Demand n} {deeds : List (Deed n)} {after : Node n}
    (hserved : demand.Served task fabric deeds after rest) : demand.node.Advances after := by
  cases hserved with
  | paused hpaused => exact hpaused.advances
  | blocked hport hreceive => exact ⟨rfl, rfl, id⟩
  | received hport hreceive hpause hpaused =>
      exact (Node.advances_pauseAfterRead hpause).trans hpaused.advances

namespace Node

variable {n : ℕ} {node after : Node n} {τ : Type} {task : τ} {fabric rest : Fabric τ n}
  {progress : Progress}

theorem advances_of_step (hstep : node.step task fabric = .ok (progress, after, rest)) :
    node.Advances after := by
  obtain ⟨demand, hdemand, hserved⟩ := served_of_step hstep
  exact (advances_demand hdemand).trans hserved.advances

theorem Resumed.advances {deeds : List (Deed n)}
    (hresumed : Resumed task fabric node deeds after rest) : node.Advances after := by
  cases hresumed with
  | received hpending hport hfinish hpause hserved =>
      have hforgets : node.Advances { node with pending := none } := ⟨rfl, rfl, id⟩
      exact (hforgets.trans (advances_pauseAfterRead hpause)).trans hserved.advances
  | delivered hpending hport =>
      have hforgets : node.Advances { node with pending := none } := ⟨rfl, rfl, id⟩
      exact hforgets.trans (advances_finish _ none)
  | dropped | late => exact ⟨rfl, rfl, id⟩
  | nothing => exact .refl node

theorem Withdrawn.advances [DecidableEq τ] {deeds : List (Deed n)}
    (hwithdrawn : Withdrawn task fabric node deeds after rest) : node.Advances after := by
  cases hwithdrawn <;> exact ⟨rfl, rfl, id⟩

/-- As long as no program is loaded, a node goes on in its program. -/
theorem Later.advances [DecidableEq τ] (hlater : node.Later task after) : node.Advances after := by
  induction hlater with
  | refl => exact .refl node
  | step _ hstep ih => exact ih.trans (advances_of_step hstep)
  | resume _ hresume ih => exact ih.trans (resumed_of_resume hresume).advances
  | withdraw _ hwithdraw ih => exact ih.trans (withdrawn_of_withdraw hwithdraw).advances
  | stall _ ih => exact ih.trans ⟨rfl, rfl, id⟩

/-! ## The listing -/

/-- The states of a node with these ports, with the text that it was given last and what
came of it.  Its channels may be in any state. -/
inductive Reached {τ : Type} [DecidableEq τ] (task : τ) (name : String)
    (ports : Port → Option (Fin n)) :
    Option (String × Except CompileError Compilation) → Node n → Prop where
  | start : Reached task name ports none (inert name ports)
  | load {last : Option (String × Except CompileError Compilation)} {node : Node n}
      (hreached : Reached task name ports last node) (source : String) :
      Reached task name ports (some (source, node.assemble source)) (node.load source)
  | later {last : Option (String × Except CompileError Compilation)} {node after : Node n}
      (hreached : Reached task name ports last node) (hlater : node.Later task after) :
      Reached task name ports last after

/-- The listing shows the lines of the source and marks the one that holds the current
instruction of the program. -/
structure MarksLine (node : Node n) (source : String) (program : Program) (marked : ℕ) : Prop where
  splitOn_eq : node.listing.splitOn '\n' =
    (Text.displayLines source.toList).mapIdx fun index line =>
      (if index = marked then '>' else ' ') :: ' ' :: line
  /-- The line holds the instruction, up to the index of a label. -/
  holds : ∃ line draft target, (Text.displayLines source.toList)[marked]? = some line ∧
    Assembly.lineDraft? line = some draft ∧ program[node.ip]? = some (draft.instruction target)
  /-- The lines above hold those in front of it. -/
  countP_eq : ((Text.displayLines source.toList).take marked).countP
    (fun line => (Assembly.lineDraft? line).isSome) = node.ip

/-- The node shows this source and has got what came of it. -/
structure HasLoaded (node : Node n) (source : String)
    (result : Except CompileError Compilation) : Prop where
  source_eq : node.source = source
  compilation_eq : node.compilation = result.toOption
  compiles : ∀ compilation, result = .ok compilation → Assembly.compile source = .ok compilation
  inProgram : node.InProgram

section Listing

variable [DecidableEq τ] {name : String} {ports : Port → Option (Fin n)} {source : String}
  {result : Except CompileError Compilation}

theorem hasLoaded_load (node : Node n) (source : String) :
    (node.load source).HasLoaded source (node.assemble source) where
  source_eq := rfl
  compilation_eq := rfl
  compiles := fun _ hassemble => (assemble_eq_ok_iff.mp hassemble).1
  inProgram := fun hprogram =>
    ⟨List.length_pos_of_ne_nil hprogram, List.length_pos_of_ne_nil hprogram⟩

theorem HasLoaded.advances (hloaded : node.HasLoaded source result) (hadvances : node.Advances after) :
    after.HasLoaded source result where
  source_eq := hadvances.source_eq.trans hloaded.source_eq
  compilation_eq := hadvances.compilation_eq.trans hloaded.compilation_eq
  compiles := hloaded.compiles
  inProgram := hadvances.inProgram hloaded.inProgram

/-- A node has loaded the last text, or it has no program yet. -/
theorem Reached.hasLoaded {last : Option (String × Except CompileError Compilation)}
    (hreached : Reached task name ports last node) :
    (last = none → node.compilation = none) ∧
      ∀ source result, last = some (source, result) → node.HasLoaded source result := by
  induction hreached with
  | start =>
      refine ⟨fun _ => rfl, ?_⟩
      intro source result hlast
      cases hlast
  | @load last node hreached source ih =>
      -- a load is the last one until the next
      constructor
      · intro hlast
        cases hlast
      · intro other result hlast
        cases hlast
        exact hasLoaded_load node source
  | later hreached hlater ih =>
      constructor
      · intro hlast
        exact hlater.advances.compilation_eq.trans (ih.1 hlast)
      · intro source result hlast
        exact (ih.2 source result hlast).advances hlater.advances

/-- The lines of a listing, unless there are none. -/
theorem splitOn_listing (hlines : Text.displayLines node.source.toList ≠ []) :
    node.listing.splitOn '\n' =
      (Text.displayLines node.source.toList).mapIdx fun index line =>
        markedLine (node.currentLine? == some index) line := by
  rw [listing, Text.unlines]
  refine List.splitOn_intercalate '\n' ?_ (by simpa using hlines)
  intro line hline hbreak
  obtain ⟨index, hindex, rfl⟩ := List.mem_mapIdx.mp hline
  have hshown := Assembly.not_newline_mem_displayLines
    (List.getElem_mem (l := Text.displayLines node.source.toList) hindex)
  unfold markedLine at hbreak
  split at hbreak <;> simp [hshown] at hbreak

/-- A node that has loaded instructions marks the line of the current one. -/
theorem HasLoaded.exists_marksLine {compilation : Compilation}
    (hloaded : node.HasLoaded source (.ok compilation)) (hprogram : compilation.program ≠ []) :
    ∃ marked, node.MarksLine source compilation.program marked := by
  have hcompilation : node.compilation = some compilation := hloaded.compilation_eq
  have hsame : node.program = compilation.program := by rw [program, hcompilation]
  have hin := hloaded.inProgram
  rw [InProgram, hsame] at hin
  obtain ⟨marked, line, draft, target, hplace, hline, hholds, hcount, hinstruction⟩ :=
    Assembly.exists_shown_of_compile (hloaded.compiles compilation rfl) (hin hprogram).1
  have hcurrent : node.currentLine? = some marked := by
    rw [currentLine?, hcompilation]
    exact hplace
  refine ⟨marked, ?_, ⟨line, draft, target, hline, hholds, hinstruction⟩, hcount⟩
  rw [← hloaded.source_eq] at hline ⊢
  rw [splitOn_listing fun hnil => by simp [hnil] at hline, hcurrent]
  refine congrArg (List.mapIdx · (Text.displayLines node.source.toList)) ?_
  -- the mark stands at the line of the current instruction only
  funext index line
  by_cases hmarked : index = marked
  · simp [markedLine, hmarked]
  · simp [markedLine, hmarked, Ne.symm hmarked]

/-- A node without a current line marks none. -/
theorem not_marked_of_currentLine? (hcurrent : node.currentLine? = none) :
    ∀ line ∈ node.listing.splitOn '\n', line.head? ≠ some '>' := by
  intro line hline
  by_cases hlines : Text.displayLines node.source.toList = []
  · rw [listing, hlines] at hline
    rw [List.mem_singleton.mp hline]
    simp
  · rw [splitOn_listing hlines, hcurrent] at hline
    obtain ⟨index, hindex, rfl⟩ := List.mem_mapIdx.mp hline
    simp [markedLine]

end Listing

/-- While a node has instructions, its listing marks the line of the one that was started
last, and otherwise none. -/
theorem listing_of_reached [DecidableEq τ] {name : String} {ports : Port → Option (Fin n)}
    {last : Option (String × Except CompileError Compilation)}
    (hreached : Reached task name ports last node) :
    (∀ source compilation, last = some (source, .ok compilation) → compilation.program ≠ [] →
        ∃ marked, node.MarksLine source compilation.program marked) ∧
      ((∀ source compilation, last = some (source, .ok compilation) → compilation.program = []) →
        ∀ line ∈ node.listing.splitOn '\n', line.head? ≠ some '>') := by
  obtain ⟨hfresh, hloaded⟩ := hreached.hasLoaded
  constructor
  · intro source compilation hlast hprogram
    exact (hloaded source _ hlast).exists_marksLine hprogram
  · intro hempty
    refine not_marked_of_currentLine? ?_
    rw [currentLine?]
    cases last with
    | none => rw [hfresh rfl, Option.bind_none]
    | some text =>
        obtain ⟨source, result⟩ := text
        have hsource := hloaded source result rfl
        rw [hsource.compilation_eq]
        cases result with
        | error broken => rfl
        | ok compilation =>
            -- without instructions the map of lines is empty, and there is no current line
            have hlength := length_lineMap (hsource.compiles compilation rfl)
            rw [hempty source compilation rfl, List.length_nil] at hlength
            simp [Except.toOption, List.length_eq_zero_iff.mp hlength]

/-- A loop with a remark and an empty line. -/
def doubling : String := "# doubles its input\nSTART: ADD ACC\n\nJMP START"

/-- The program of the loop. -/
def doublingProgram : Program := [.unary .add (.register .acc), .jump .always 0]

/-- A node that has executed each instruction once. -/
def doubled : Node 0 where
  name := "n0"
  ports _ := none
  source := doubling
  compilation := some ⟨doublingProgram, [1, 3]⟩
  acc := 0
  bak := 0
  ip := 1
  nextIp := 0
  status := .run
  requested := 2
  executed := 2
  pending := none
  abandoned := none

theorem listing_of_reached_doubled :
    Reached () "n0" (fun _ => none) (some (doubling, .ok ⟨doublingProgram, [1, 3]⟩)) doubled ∧
      doublingProgram ≠ [] ∧ ∃ marked, doubled.MarksLine doubling doublingProgram marked := by
  have hassemble : (inert (n := 0) "n0" fun _ => none).assemble doubling =
      .ok ⟨doublingProgram, [1, 3]⟩ :=
    eq_ok_of_beq (by decide +kernel)
  have hload : Reached () "n0" (fun _ => none) (some (doubling, .ok ⟨doublingProgram, [1, 3]⟩))
      ((inert (n := 0) "n0" fun _ => none).load doubling) := by
    rw [← hassemble]
    exact .load .start doubling
  -- two steps on, the node has come to the second of its lines
  have hfirst : ((inert "n0" fun _ => none).load doubling).step () (.ofCapacities #v[]) =
      .ok (.settled, { doubled with ip := 0, nextIp := 1, requested := 1, executed := 1 },
        .ofCapacities #v[]) := by
    rw [load, hassemble]
    rfl
  have hsecond : step { doubled with ip := 0, nextIp := 1, requested := 1, executed := 1 } ()
      (.ofCapacities #v[]) = .ok (.settled, doubled, .ofCapacities #v[]) := rfl
  have hreached := hload.later (.step (.step .refl hfirst) hsecond)
  exact ⟨hreached, by decide, (listing_of_reached hreached).1 doubling _ rfl (by decide)⟩

/-- The line of the jump is marked. -/
example : doubled.listing = "  # doubles its input\n  START: ADD ACC\n  \n> JMP START".toList := by
  cbv

end Node

end NodeGrid

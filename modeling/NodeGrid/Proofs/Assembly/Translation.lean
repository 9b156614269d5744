import NodeGrid.Assembly.Compilation
import NodeGrid.Proofs.Assembly.Grammar
import Mathlib.Data.List.Forall2

/-!
# What a source text compiles to

The statements of a text are a program if no label is defined twice and every
label in use is defined (`IsProgram`).  The program that they stand for is read
off them without a table of labels (`translation`): a label means the number of
instructions in front of its definition.

The compiler accepts exactly the texts that are programs, and compiles them to
what they stand for (`compile_iff`).  Both of its passes over the labels are
carried by one fact about a table: after all labels are bound, it finds each
label at its `position` (`find?_of_bind`).
-/

namespace NodeGrid.Assembly

/-! ## Programs -/

/-- The labels that the statements define, in order. -/
def definedLabels (statements : List Statement) : List (List Char) :=
  statements.flatMap Statement.labels

/-- The label that a draft jumps to. -/
def Draft.label? : Draft → Option (List Char)
  | .ready _ => none
  | .toLabel _ label => some label

/-- The labels that the statements jump to, in order. -/
def usedLabels (statements : List Statement) : List (List Char) :=
  statements.filterMap fun statement => statement.draft.bind Draft.label?

/-- The number of instructions in front of the definition of the label. -/
def position (statements : List Statement) (label : List Char) : ℕ :=
  ((statements.takeWhile fun statement => label ∉ statement.labels).map Statement.size).sum

/-- The instruction of a draft, if labels mean these indices. -/
def Draft.instruction (target : List Char → ℕ) : Draft → Instruction
  | .ready instruction => instruction
  | .toLabel condition label => .jump condition (target label)

/-- The drafts of the statements with the lines they stand on, of which the first
is `line`. -/
def placedDrafts (line : ℕ) (statements : List Statement) : List (Draft × ℕ) :=
  (statements.zipIdx line).filterMap fun (statement, line) => statement.draft.map (·, line)

/-- What the statements stand for. -/
def translation (statements : List Statement) : Compilation where
  program := (placedDrafts 0 statements).map fun (draft, _) =>
    draft.instruction (position statements)
  lineMap := (placedDrafts 0 statements).map Prod.snd

/-- The source is a program with these statements, one for each line. -/
structure IsProgram (source : String) (statements : List Statement) : Prop where
  lines : List.Forall₂ (fun line statement => ∃ tokens, Lexes line tokens ∧ IsLine tokens statement)
    ((Text.Uppercase.ofText source.toList).splitOn '\n') statements
  nodup : (definedLabels statements).Nodup
  defined : ∀ label ∈ usedLabels statements, label ∈ definedLabels statements

/-! ## Reading lines -/

theorem mapError_eq_ok_iff {ε δ α : Type} {result : Except ε α} {wrap : ε → δ} {value : α} :
    result.mapError wrap = .ok value ↔ result = .ok value := by
  cases result <;> simp [Except.mapError]

/-- Lines are read if each of them is. -/
theorem readLines_eq_ok_iff {α β : Type} {read : α → Except Cause β} {first : ℕ} {lines : List α}
    {values : List β} :
    readLines read first lines = .ok values ↔
      List.Forall₂ (fun line value => read line = .ok value) lines values := by
  induction lines generalizing first values with
  | nil => simp [readLines, eq_comm]
  | cons line rest ih =>
      simp only [readLines, bind_eq_ok, mapError_eq_ok_iff, ih]
      constructor
      · rintro ⟨value, hvalue, others, hothers, ⟨⟩⟩
        exact .cons hvalue hothers
      · rintro (_ | ⟨hvalue, hothers⟩)
        exact ⟨_, hvalue, _, hothers, rfl⟩

/-- Lines that are read in two passes are read one by one. -/
theorem forall₂_comp {α β γ : Type} {first : α → β → Prop} {second : β → γ → Prop}
    {lines : List α} {values : List γ} :
    (∃ middle, List.Forall₂ first lines middle ∧ List.Forall₂ second middle values) ↔
      List.Forall₂ (fun line value => ∃ mid, first line mid ∧ second mid value) lines values := by
  constructor
  · rintro ⟨middle, hfirst, hsecond⟩
    induction hfirst generalizing values with
    | nil =>
        cases hsecond
        exact .nil
    | cons hline hlines ih =>
        cases hsecond with
        | cons hvalue hvalues => exact .cons ⟨_, hline, hvalue⟩ (ih hvalues)
  · intro hboth
    induction hboth with
    | nil => exact ⟨[], .nil, .nil⟩
    | cons hline hlines ih =>
        obtain ⟨mid, hfirst, hsecond⟩ := hline
        obtain ⟨middle, hfirsts, hseconds⟩ := ih
        exact ⟨mid :: middle, .cons hfirst hfirsts, .cons hsecond hseconds⟩

/-- The statements of a text are those of its lines. -/
theorem readStatements_eq_ok_iff {text : List Char} {statements : List Statement} :
    readStatements text = .ok statements ↔
      List.Forall₂ (fun line statement => ∃ tokens, Lexes line tokens ∧ IsLine tokens statement)
        ((Text.Uppercase.ofText text).splitOn '\n') statements := by
  have hline : ∀ line statement,
      (∃ tokens, Lexes line tokens ∧ Statement.ofTokens tokens = .ok statement) ↔
        ∃ tokens, Lexes line tokens ∧ IsLine tokens statement :=
    fun line statement => exists_congr fun tokens => and_congr_right ofTokens_eq_ok_iff
  simp only [readStatements, bind_eq_ok, tokenLines, readLines_eq_ok_iff, mapError_eq_ok_iff,
    scan_eq_ok_iff, forall₂_comp, hline]

/-! ## Binding labels -/

/-- The labels are different, and none of them is bound yet. -/
def LabelTable.Admits (table : LabelTable) (labels : List (List Char)) : Prop :=
  labels.Nodup ∧ ∀ label ∈ labels, table.find? label = none

section Labels

variable {table bound : LabelTable} {target line next : ℕ} {labels others : List (List Char)}
  {statement : Statement} {statements : List Statement} {label other : List Char}

/-- Labels are admitted in two parts, the second after the first is bound. -/
theorem admits_append_iff
    (hfind : ∀ label, bound.find? label = none ↔ label ∉ labels ∧ table.find? label = none) :
    table.Admits (labels ++ others) ↔ table.Admits labels ∧ bound.Admits others := by
  simp only [LabelTable.Admits, List.nodup_append, List.mem_append, hfind]
  constructor
  · rintro ⟨⟨hlabels, hothers, hne⟩, hnew⟩
    exact ⟨⟨hlabels, fun label hmem => hnew label (Or.inl hmem)⟩, hothers, fun other hmem =>
      ⟨fun hin => hne other hin other hmem rfl, hnew other (Or.inr hmem)⟩⟩
  · rintro ⟨⟨hlabels, hnew⟩, hothers, hlater⟩
    refine ⟨⟨hlabels, hothers, ?_⟩, ?_⟩
    · rintro label hmem other hother rfl
      exact (hlater label hother).1 hmem
    · rintro label (hmem | hmem)
      · exact hnew label hmem
      · exact (hlater label hmem).2

theorem define_eq_ok_iff :
    table.define label target = .ok bound ↔
      table.find? label = none ∧ bound = ⟨(label, target) :: table.entries⟩ := by
  unfold LabelTable.define
  cases table.find? label <;> simp [eq_comm]

theorem find?_of_define (hbound : table.define other target = .ok bound) :
    bound.find? label = if label = other then some target else table.find? label := by
  obtain ⟨-, rfl⟩ := define_eq_ok_iff.mp hbound
  cases hlabel : label == other with
  | true => simp [LabelTable.find?, beq_iff_eq.mp hlabel]
  | false => simp [LabelTable.find?, List.lookup_cons, hlabel, beq_eq_false_iff_ne.mp hlabel]

theorem find?_eq_none_of_define (hbound : table.define other target = .ok bound)
    (label : List Char) :
    bound.find? label = none ↔ label ∉ [other] ∧ table.find? label = none := by
  rw [find?_of_define hbound]
  by_cases hlabel : label = other <;> simp [hlabel]

theorem find?_of_defineAll (hbound : table.defineAll target labels = .ok bound) :
    bound.find? label = if label ∈ labels then some target else table.find? label := by
  induction labels generalizing table with
  | nil =>
      cases hbound
      simp
  | cons first rest ih =>
      obtain ⟨middle, hmiddle, hrest⟩ := bind_eq_ok.mp hbound
      rw [ih hrest, find?_of_define hmiddle]
      by_cases hmem : label ∈ rest <;> simp [hmem]

/-- The labels of one line are bound exactly if the table admits them. -/
theorem exists_defineAll_iff :
    (∃ bound, table.defineAll target labels = .ok bound) ↔ table.Admits labels := by
  induction labels generalizing table with
  | nil => simp [LabelTable.defineAll, LabelTable.Admits]
  | cons label rest ih =>
      rw [← List.singleton_append]
      -- the first label is admitted, or nothing is
      cases hdefine : table.define label target with
      | error cause =>
          have hbound : table.find? label ≠ none := by
            intro hnone
            rw [define_eq_ok_iff.mpr ⟨hnone, rfl⟩] at hdefine
            cases hdefine
          simp [LabelTable.defineAll, hdefine, LabelTable.Admits, hbound, bind, Except.bind]
      | ok middle =>
          have hfirst : table.Admits [label] := by
            simpa [LabelTable.Admits] using (define_eq_ok_iff.mp hdefine).1
          rw [admits_append_iff (find?_eq_none_of_define hdefine), ← ih, List.singleton_append,
            LabelTable.defineAll, hdefine, ok_bind]
          exact (and_iff_right hfirst).symm

@[simp] theorem position_nil : position [] label = 0 := rfl

theorem position_cons : position (statement :: statements) label =
    if label ∈ statement.labels then 0 else statement.size + position statements label := by
  unfold position
  by_cases hmem : label ∈ statement.labels <;> simp [hmem]

theorem bind_cons_eq_ok_iff :
    table.bind line next (statement :: statements) = .ok bound ↔
      ∃ middle, table.defineAll next statement.labels = .ok middle ∧
        middle.bind (line + 1) (next + statement.size) statements = .ok bound := by
  simp only [LabelTable.bind, bind_eq_ok, mapError_eq_ok_iff]

theorem find?_eq_none_of_defineAll (hbound : table.defineAll target labels = .ok bound)
    (label : List Char) :
    bound.find? label = none ↔ label ∉ labels ∧ table.find? label = none := by
  rw [find?_of_defineAll hbound]
  by_cases hmem : label ∈ labels <;> simp [hmem]

/-- The labels of all statements are bound exactly if the table admits them. -/
theorem exists_bind_iff :
    (∃ bound, table.bind line next statements = .ok bound) ↔
      table.Admits (definedLabels statements) := by
  induction statements generalizing table line next with
  | nil => simp [LabelTable.bind, definedLabels, LabelTable.Admits]
  | cons statement rest ih =>
      -- the labels of the first line come before those of the others
      have hlabels : definedLabels (statement :: rest) = statement.labels ++ definedLabels rest :=
        List.flatMap_cons
      rw [hlabels]
      constructor
      · rintro ⟨bound, hbound⟩
        obtain ⟨middle, hmiddle, hrest⟩ := bind_cons_eq_ok_iff.mp hbound
        exact (admits_append_iff (find?_eq_none_of_defineAll hmiddle)).mpr
          ⟨exists_defineAll_iff.mp ⟨_, hmiddle⟩, ih.mp ⟨_, hrest⟩⟩
      · intro hadmits
        obtain ⟨middle, hmiddle⟩ := exists_defineAll_iff.mpr
          ⟨(List.nodup_append.mp hadmits.1).1,
            fun label hmem => hadmits.2 label (List.mem_append_left _ hmem)⟩
        obtain ⟨bound, hbound⟩ :=
          ih.mpr ((admits_append_iff (find?_eq_none_of_defineAll hmiddle)).mp hadmits).2
        exact ⟨bound, bind_cons_eq_ok_iff.mpr ⟨middle, hmiddle, hbound⟩⟩

/-- A table finds the labels of all statements where they are defined. -/
theorem find?_of_bind (hbound : table.bind line next statements = .ok bound) :
    bound.find? label = if label ∈ definedLabels statements
      then some (next + position statements label) else table.find? label := by
  induction statements generalizing table line next with
  | nil =>
      cases hbound
      simp [definedLabels]
  | cons statement rest ih =>
      obtain ⟨middle, hmiddle, hrest⟩ := bind_cons_eq_ok_iff.mp hbound
      have hlabels : definedLabels (statement :: rest) = statement.labels ++ definedLabels rest :=
        List.flatMap_cons
      rw [ih hrest, find?_of_defineAll hmiddle, position_cons]
      simp only [hlabels, List.mem_append]
      by_cases hfirst : label ∈ statement.labels
      -- a label of this line is not defined again further down
      · have hlater : label ∉ definedLabels rest := by
          intro hmem
          have hnone := (exists_bind_iff.mp ⟨_, hrest⟩).2 label hmem
          exact ((find?_eq_none_of_defineAll hmiddle label).mp hnone).1 hfirst
        simp [hfirst, hlater]
      · simp [hfirst, Nat.add_assoc]

end Labels

/-! ## Replacing labels -/

section Linking

variable {table : LabelTable} {target : List Char → ℕ} {draft : Draft} {line : ℕ}
  {statements : List Statement}

theorem link_of_find? (hfind : ∀ label ∈ draft.label?, table.find? label = some (target label)) :
    draft.link table = .ok (draft.instruction target) := by
  cases draft with
  | ready instruction => rfl
  | toLabel condition label =>
      simp only [Draft.link, LabelTable.resolve, hfind label rfl]
      rfl

theorem find?_isSome_of_link {instruction : Instruction}
    (hlink : draft.link table = .ok instruction) :
    ∀ label ∈ draft.label?, (table.find? label).isSome := by
  cases draft with
  | ready instruction => simp [Draft.label?]
  | toLabel condition label =>
      rintro _ ⟨⟩
      cases hlabel : table.find? label with
      | some target => rfl
      | none =>
          simp only [Draft.link, LabelTable.resolve, hlabel] at hlink
          cases hlink

@[simp] theorem usedLabels_none {labels : List (List Char)} :
    usedLabels (⟨labels, none⟩ :: statements) = usedLabels statements := by
  simp [usedLabels]

@[simp] theorem mem_usedLabels_some {labels : List (List Char)} {label : List Char} :
    label ∈ usedLabels (⟨labels, some draft⟩ :: statements) ↔
      label ∈ draft.label? ∨ label ∈ usedLabels statements := by
  simp [usedLabels]

/-- All labels in use are replaced if the table finds them. -/
theorem linkAll_of_find? (hfind : ∀ label ∈ usedLabels statements,
      table.find? label = some (target label)) :
    linkAll table line statements = .ok
      ((placedDrafts line statements).map fun (draft, line) => (draft.instruction target, line)) := by
  fun_induction linkAll table line statements with
  | case1 => rfl
  | case2 line labels rest ih =>
      rw [usedLabels_none] at hfind
      rw [ih hfind]
      simp [placedDrafts]
  | case3 line labels draft rest ih =>
      simp only [mem_usedLabels_some, or_imp, forall_and] at hfind
      rw [link_of_find? hfind.1, ih hfind.2]
      simp [placedDrafts]
      rfl

theorem find?_isSome_of_linkAll {placed : List (Instruction × ℕ)}
    (hplaced : linkAll table line statements = .ok placed) :
    ∀ label ∈ usedLabels statements, (table.find? label).isSome := by
  fun_induction linkAll table line statements generalizing placed with
  | case1 => simp [usedLabels]
  | case2 line labels rest ih =>
      rw [usedLabels_none]
      exact ih hplaced
  | case3 line labels draft rest ih =>
      obtain ⟨instruction, hinstruction, hrest⟩ := bind_eq_ok.mp hplaced
      obtain ⟨others, hothers, -⟩ := bind_eq_ok.mp hrest
      intro label hmem
      rcases mem_usedLabels_some.mp hmem with hfirst | hlater
      · exact find?_isSome_of_link (mapError_eq_ok_iff.mp hinstruction) label hfirst
      · exact ih hothers label hlater

end Linking

/-! ## Compiling -/

section Compiling

variable {statements : List Statement}

/-- Statements with labels as they should be are compiled to what they stand for. -/
theorem ofStatements_eq_ok (hnodup : (definedLabels statements).Nodup)
    (hdefined : ∀ label ∈ usedLabels statements, label ∈ definedLabels statements) :
    Compilation.ofStatements statements = .ok (translation statements) := by
  obtain ⟨table, htable⟩ : ∃ table, LabelTable.empty.bind 1 0 statements = .ok table :=
    exists_bind_iff.mpr ⟨hnodup, fun label hmem => rfl⟩
  have hfind : ∀ label ∈ usedLabels statements,
      table.find? label = some (position statements label) := by
    intro label hmem
    rw [find?_of_bind htable, if_pos (hdefined label hmem), Nat.zero_add]
  rw [Compilation.ofStatements, htable, ok_bind, linkAll_of_find? hfind, ok_bind, List.map_map,
    List.map_map]
  rfl

theorem labels_of_ofStatements {compilation : Compilation}
    (hcompile : Compilation.ofStatements statements = .ok compilation) :
    (definedLabels statements).Nodup ∧
      ∀ label ∈ usedLabels statements, label ∈ definedLabels statements := by
  obtain ⟨table, htable, hrest⟩ := bind_eq_ok.mp hcompile
  obtain ⟨placed, hplaced, -⟩ := bind_eq_ok.mp hrest
  refine ⟨(exists_bind_iff.mp ⟨table, htable⟩).1, fun label hmem => ?_⟩
  have hsome := find?_isSome_of_linkAll hplaced label hmem
  rw [find?_of_bind htable] at hsome
  by_cases hdefined : label ∈ definedLabels statements
  · exact hdefined
  · rw [if_neg hdefined] at hsome
    cases hsome

/-- The compiler accepts the texts that are programs, and no others, and it
compiles them to what they stand for. -/
theorem compile_iff (source : String) :
    ((∃ compilation, compile source = .ok compilation) ↔
      ∃ statements, IsProgram source statements) ∧
    ∀ statements, IsProgram source statements →
      compile source = .ok (translation statements) := by
  have htranslation : ∀ statements, IsProgram source statements →
      compile source = .ok (translation statements) := by
    intro statements hprogram
    rw [compile, compileText, readStatements_eq_ok_iff.mpr hprogram.lines, ok_bind,
      ofStatements_eq_ok hprogram.nodup hprogram.defined]
  refine ⟨⟨?_, ?_⟩, htranslation⟩
  · rintro ⟨compilation, hcompile⟩
    obtain ⟨statements, hread, hstatements⟩ := bind_eq_ok.mp hcompile
    obtain ⟨hnodup, hdefined⟩ := labels_of_ofStatements hstatements
    exact ⟨statements, readStatements_eq_ok_iff.mp hread, hnodup, hdefined⟩
  · rintro ⟨statements, hprogram⟩
    exact ⟨_, htranslation statements hprogram⟩

/-- A jump over an instruction, to a label that nothing follows. -/
example : compile "jgz end\nadd -1 # not if positive\nend:" =
    .ok ⟨[.jump .positive 2, .unary .add (.immediate (-1))], [0, 1]⟩ := by
  cbv

end Compiling

end NodeGrid.Assembly

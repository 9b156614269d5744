import NodeGrid.Proofs.Assembly.Faults
import NodeGrid.Proofs.Assembly.Translation
import NodeGrid.Proofs.Text.Lines

/-!
# Which error a source text reports

A text with several faults reports one of them, and which one is said without
compiling the text (`FirstError`).  The stages of the compiler come one after the
other: characters that start no token, faults of single lines, labels that are
defined twice, jumps to labels that are not defined.  The first stage at which there
is a fault decides, and it reports the first line with such a fault (`FirstFault`).

A line has the number that it has in the source: it is not shifted by the upper-case
forms, nor by lines without instructions, since every stage hands on one result for
each line.
-/

namespace NodeGrid.Assembly

/-! ## Errors and the lines that they name -/

/-- The lines of a source, in upper case. -/
def sourceLines (source : String) : List (List Char) :=
  (source.toList.splitOn '\n').map Text.Uppercase.ofText

/-- The error names the first of the lines with a fault, and the fault.  The number of
the first line is `first`. -/
def FirstFault {α : Type} (fault : α → Cause → Prop) (first : ℕ) (lines : List α)
    (error : CompileError) : Prop :=
  ∃ earlier line later, lines = earlier ++ line :: later ∧
    (∀ other ∈ earlier, ∀ cause, ¬ fault other cause) ∧
    fault line error.cause ∧ error.line = first + earlier.length

/-- The line comes to a character that starts no token. -/
def HasStray (line : List Char) (cause : Cause) : Prop :=
  ∃ c, Strays line c ∧ cause = .strayCharacter c

/-- The source has these statements, one on each line. -/
def HasStatements (source : String) (statements : List Statement) : Prop :=
  List.Forall₂ (fun line statement => ∃ tokens, Lexes line tokens ∧ IsLine tokens statement)
    (sourceLines source) statements

/-- The error names the first line on which a label is defined for the second time. -/
def SecondDefinition (statements : List Statement) (error : CompileError) : Prop :=
  ∃ earlier statement later before label after, statements = earlier ++ statement :: later ∧
    statement.labels = before ++ label :: after ∧
    (definedLabels earlier ++ before).Nodup ∧ label ∈ definedLabels earlier ++ before ∧
    error.cause = .duplicateLabel label ∧ error.line = 1 + earlier.length

/-- The statement jumps to a label that is not one of these. -/
def JumpsAway (labels : List (List Char)) (statement : Statement) (cause : Cause) : Prop :=
  ∃ label ∈ statement.draft.bind Draft.label?, label ∉ labels ∧ cause = .undefinedLabel label

/-- The error that the source is rejected with.  The source comes to each of these
stages after it has passed the ones before. -/
inductive FirstError (source : String) (error : CompileError) : Prop where
  | character (hfirst : FirstFault HasStray 1 (sourceLines source) error)
  | line {tokens : List (List Token)} (htokens : List.Forall₂ Lexes (sourceLines source) tokens)
      (hfirst : FirstFault IsFault 1 tokens error)
  | duplicate {statements : List Statement} (hstatements : HasStatements source statements)
      (hsecond : SecondDefinition statements error)
  | undefined {statements : List Statement} (hstatements : HasStatements source statements)
      (hnodup : (definedLabels statements).Nodup)
      (hfirst : FirstFault (JumpsAway (definedLabels statements)) 1 statements error)

/-! ## The first line with a fault -/

section Lines

variable {α β : Type} {fault other : α → Cause → Prop} {read : α → Except Cause β} {first : ℕ}
  {line : α} {lines rest : List α} {error : CompileError}

theorem firstFault_cons_iff :
    FirstFault fault first (line :: rest) error ↔
      fault line error.cause ∧ error.line = first ∨
        (∀ cause, ¬ fault line cause) ∧ FirstFault fault (first + 1) rest error := by
  constructor
  · rintro ⟨_ | ⟨head, earlier⟩, faulty, later, hlines, hearlier, hfault, hnumber⟩
    · cases hlines
      exact Or.inl ⟨hfault, hnumber⟩
    · cases hlines
      obtain ⟨hhead, hothers⟩ := List.forall_mem_cons.mp hearlier
      refine Or.inr ⟨hhead, earlier, faulty, later, rfl, hothers, hfault, ?_⟩
      rw [hnumber, List.length_cons]
      omega
  · -- the first line of all is that of the error, or an earlier line of it
    rintro (⟨hfault, hnumber⟩ | ⟨hhead, earlier, faulty, later, rfl, hearlier, hfault, hnumber⟩)
    · exact ⟨[], line, rest, rfl, by simp, hfault, hnumber⟩
    · refine ⟨line :: earlier, faulty, later, rfl, List.forall_mem_cons.mpr ⟨hhead, hearlier⟩,
        hfault, ?_⟩
      rw [hnumber, List.length_cons]
      omega

theorem firstFault_congr
    (hsame : ∀ line ∈ lines, ∀ cause, fault line cause ↔ other line cause) :
    FirstFault fault first lines error ↔ FirstFault other first lines error := by
  induction lines generalizing first with
  | nil => simp [FirstFault]
  | cons line rest ih =>
      obtain ⟨hline, hrest⟩ := List.forall_mem_cons.mp hsame
      simp only [firstFault_cons_iff, hline, ih hrest]

theorem FirstFault.line_le (hfirst : FirstFault fault 1 lines error) :
    1 ≤ error.line ∧ error.line ≤ lines.length := by
  obtain ⟨earlier, line, later, rfl, -, -, hnumber⟩ := hfirst
  rw [hnumber, List.length_append, List.length_cons]
  omega

theorem mapError_eq_error_iff {ε δ : Type} {result : Except ε β} {wrap : ε → δ} {broken : δ} :
    result.mapError wrap = .error broken ↔
      ∃ inner, result = .error inner ∧ broken = wrap inner := by
  cases result <;> simp [Except.mapError, eq_comm]

/-- What is done for one line fails there, or later. -/
theorem bind_mapError_eq_error {γ : Type} {result : Except Cause β}
    {next : β → Except CompileError γ} {number : ℕ} :
    result.mapError (CompileError.mk number) >>= next = .error error ↔
      result = .error error.cause ∧ error.line = number ∨
        ∃ value, result = .ok value ∧ next value = .error error := by
  obtain ⟨named, cause⟩ := error
  cases result <;> simp [bind, Except.bind, Except.mapError, and_comm, eq_comm]

/-- Lines are not read exactly if one of them is not, and the first of these is named. -/
theorem readLines_eq_error_iff :
    readLines read first lines = .error error ↔
      FirstFault (fun line cause => read line = .error cause) first lines error := by
  induction lines generalizing first with
  | nil => simp [readLines, FirstFault]
  | cons line rest ih =>
      rw [readLines, firstFault_cons_iff, bind_mapError_eq_error, ← ih]
      refine or_congr_right ?_
      cases read line with
      | error cause => simp
      | ok value => simp [bind_eq_error, pure, Except.pure]

end Lines

/-! ## The first label that is defined again -/

section Labels

variable {table bound : LabelTable} {target line next : ℕ} {label : List Char}
  {labels others : List (List Char)} {statements : List Statement} {cause : Cause}
  {error : CompileError}

theorem admits_of_append (hadmits : table.Admits (labels ++ others)) : table.Admits labels :=
  ⟨(List.nodup_append.mp hadmits.1).1,
    fun label hmem => hadmits.2 label (List.mem_append_left _ hmem)⟩

theorem define_eq_error_iff :
    table.define label target = .error cause ↔
      ¬ table.Admits [label] ∧ cause = .duplicateLabel label := by
  unfold LabelTable.define
  cases hfind : table.find? label <;> simp [LabelTable.Admits, hfind, eq_comm]

theorem exists_define_iff :
    (∃ bound, table.define label target = .ok bound) ↔ table.Admits [label] := by
  simp [define_eq_ok_iff, LabelTable.Admits]

/-- After a label is bound, a table admits what it admitted after that label. -/
theorem admits_iff_of_define (hbound : table.define label target = .ok bound) :
    bound.Admits others ↔ table.Admits (label :: others) := by
  rw [← List.singleton_append, admits_append_iff (find?_eq_none_of_define hbound)]
  exact (and_iff_right (exists_define_iff.mp ⟨bound, hbound⟩)).symm

theorem admits_iff_of_defineAll (hbound : table.defineAll target labels = .ok bound) :
    bound.Admits others ↔ table.Admits (labels ++ others) := by
  rw [admits_append_iff (find?_eq_none_of_defineAll hbound)]
  exact (and_iff_right (exists_defineAll_iff.mp ⟨bound, hbound⟩)).symm

/-- The labels of a line are not bound exactly if one of them is not admitted after the
ones before it, and the first of these is named. -/
theorem defineAll_eq_error_iff :
    table.defineAll target labels = .error cause ↔
      ∃ before label after, labels = before ++ label :: after ∧ table.Admits before ∧
        ¬ table.Admits (before ++ [label]) ∧ cause = .duplicateLabel label := by
  -- the table grows with each label, and so does what it no longer admits
  induction labels generalizing table with
  | nil => simp [LabelTable.defineAll]
  | cons first rest ih =>
      rw [LabelTable.defineAll, bind_eq_error]
      constructor
      · rintro (hfirst | ⟨bound, hbound, hrest⟩)
        · obtain ⟨hnot, rfl⟩ := define_eq_error_iff.mp hfirst
          exact ⟨[], first, rest, rfl, by simp [LabelTable.Admits], hnot, rfl⟩
        · obtain ⟨before, label, after, rfl, hbefore, hnot, rfl⟩ := ih.mp hrest
          rw [admits_iff_of_define hbound] at hbefore hnot
          exact ⟨first :: before, label, after, rfl, hbefore, hnot, rfl⟩
      · rintro ⟨_ | ⟨head, before⟩, label, after, hlabels, hbefore, hnot, rfl⟩
        · cases hlabels
          exact Or.inl (define_eq_error_iff.mpr ⟨hnot, rfl⟩)
        · cases hlabels
          have hfirst : table.Admits [first] := admits_of_append hbefore
          obtain ⟨bound, hbound⟩ := exists_define_iff.mpr hfirst
          rw [List.cons_append, ← admits_iff_of_define hbound] at hnot
          rw [← admits_iff_of_define hbound] at hbefore
          exact Or.inr ⟨bound, hbound, ih.mpr ⟨before, label, after, rfl, hbefore, hnot, rfl⟩⟩

theorem definedLabels_cons (statement : Statement) (statements : List Statement) :
    definedLabels (statement :: statements) = statement.labels ++ definedLabels statements :=
  List.flatMap_cons

/-- The same for the labels of all statements. -/
theorem bind_eq_error_iff :
    table.bind line next statements = .error error ↔
      ∃ earlier statement later before label after, statements = earlier ++ statement :: later ∧
        statement.labels = before ++ label :: after ∧
        table.Admits (definedLabels earlier ++ before) ∧
        ¬ table.Admits (definedLabels earlier ++ (before ++ [label])) ∧
        error.cause = .duplicateLabel label ∧ error.line = line + earlier.length := by
  induction statements generalizing table line next with
  | nil => simp [LabelTable.bind]
  | cons first rest ih =>
      rw [LabelTable.bind, bind_mapError_eq_error]
      constructor
      · rintro (⟨hfirst, hnumber⟩ | ⟨bound, hbound, hrest⟩)
        · obtain ⟨before, label, after, hlabels, hbefore, hnot, hcause⟩ :=
            defineAll_eq_error_iff.mp hfirst
          exact ⟨[], first, rest, before, label, after, rfl, hlabels, hbefore, hnot, hcause,
            hnumber⟩
        · obtain ⟨earlier, statement, later, before, label, after, rfl, hlabels, hbefore, hnot,
            hcause, hnumber⟩ := ih.mp hrest
          -- what the larger table admits is what the smaller one admits after the labels of the
          -- first line
          rw [admits_iff_of_defineAll hbound, ← List.append_assoc, ← definedLabels_cons]
            at hbefore hnot
          refine ⟨first :: earlier, statement, later, before, label, after, rfl, hlabels, hbefore,
            hnot, hcause, ?_⟩
          rw [hnumber, List.length_cons]
          omega
      · rintro ⟨_ | ⟨head, earlier⟩, statement, later, before, label, after, hstatements, hlabels,
          hbefore, hnot, hcause, hnumber⟩
        · cases hstatements
          exact Or.inl ⟨defineAll_eq_error_iff.mpr
            ⟨before, label, after, hlabels, hbefore, hnot, hcause⟩, hnumber⟩
        · cases hstatements
          rw [definedLabels_cons, List.append_assoc] at hbefore hnot
          obtain ⟨bound, hbound⟩ := exists_defineAll_iff.mpr (admits_of_append hbefore)
          rw [← admits_iff_of_defineAll hbound] at hbefore hnot
          rw [List.length_cons] at hnumber
          exact Or.inr ⟨bound, hbound, ih.mpr ⟨earlier, statement, later, before, label, after, rfl,
            hlabels, hbefore, hnot, hcause, by omega⟩⟩

/-- An empty table admits labels that are different. -/
theorem admits_empty_iff : LabelTable.empty.Admits labels ↔ labels.Nodup :=
  and_iff_left fun _ _ => rfl

theorem not_nodup_append_iff (hnodup : labels.Nodup) :
    ¬ (labels ++ [label]).Nodup ↔ label ∈ labels := by
  simp [List.nodup_append, hnodup]

/-- Labels cannot be bound exactly if one is defined for the second time. -/
theorem bind_empty_eq_error_iff :
    LabelTable.empty.bind 1 0 statements = .error error ↔ SecondDefinition statements error := by
  simp only [bind_eq_error_iff, admits_empty_iff, SecondDefinition, ← List.append_assoc]
  constructor
  · rintro ⟨earlier, statement, later, before, label, after, hstatements, hlabels, hnodup, hnot,
      herror⟩
    exact ⟨earlier, statement, later, before, label, after, hstatements, hlabels, hnodup,
      (not_nodup_append_iff hnodup).mp hnot, herror⟩
  · rintro ⟨earlier, statement, later, before, label, after, hstatements, hlabels, hnodup, hmem,
      herror⟩
    exact ⟨earlier, statement, later, before, label, after, hstatements, hlabels, hnodup,
      (not_nodup_append_iff hnodup).mpr hmem, herror⟩

end Labels

/-! ## The first jump to a label that is not defined -/

section Linking

variable {table : LabelTable} {draft : Draft} {line : ℕ} {statements : List Statement}
  {cause : Cause} {error : CompileError}

theorem resolve_eq_error_iff {label : List Char} :
    table.resolve label = .error cause ↔
      table.find? label = none ∧ cause = .undefinedLabel label := by
  unfold LabelTable.resolve
  cases table.find? label <;> simp [eq_comm]

theorem link_eq_error_iff :
    draft.link table = .error cause ↔
      ∃ label ∈ draft.label?, table.find? label = none ∧ cause = .undefinedLabel label := by
  cases draft with
  | ready instruction => simp [Draft.link, Draft.label?]
  | toLabel condition label =>
      simp [Draft.link, Draft.label?, bind_eq_error, resolve_eq_error_iff, pure, Except.pure]

/-- The labels in jumps are not replaced exactly if the table does not find one of them,
and the first of these is named. -/
theorem linkAll_eq_error_iff :
    linkAll table line statements = .error error ↔
      FirstFault (fun statement cause => ∃ label ∈ statement.draft.bind Draft.label?,
        table.find? label = none ∧ cause = .undefinedLabel label) (line + 1) statements error := by
  fun_induction linkAll table line statements with
  | case1 => simp [FirstFault]
  | case2 line labels rest ih =>
      rw [ih, firstFault_cons_iff]
      simp
  | case3 line labels draft rest ih =>
      rw [firstFault_cons_iff, bind_mapError_eq_error, ← ih]
      simp only [Option.bind_some, ← link_eq_error_iff]
      refine or_congr_right ?_
      cases draft.link table with
      | error cause => simp
      | ok instruction => simp [bind_eq_error, pure, Except.pure]

end Linking

/-! ## The error of a source text -/

section Compiling

variable {source : String} {tokens : List (List Token)} {statements : List Statement}
  {error : CompileError}

theorem tokenLines_eq_ok_iff :
    tokenLines (Text.Uppercase.ofText source.toList) = .ok tokens ↔
      List.Forall₂ Lexes (sourceLines source) tokens := by
  simp only [tokenLines, Text.Uppercase.splitOn_ofText, readLines_eq_ok_iff, mapError_eq_ok_iff,
    scan_eq_ok_iff]
  rfl

theorem tokenLines_eq_error_iff :
    tokenLines (Text.Uppercase.ofText source.toList) = .error error ↔
      FirstFault HasStray 1 (sourceLines source) error := by
  simp only [tokenLines, Text.Uppercase.splitOn_ofText, readLines_eq_error_iff,
    mapError_eq_error_iff, scan_eq_error_iff]
  rfl

theorem readStatements_eq_error_iff :
    readStatements source.toList = .error error ↔
      FirstFault HasStray 1 (sourceLines source) error ∨
        ∃ tokens, List.Forall₂ Lexes (sourceLines source) tokens ∧
          FirstFault IsFault 1 tokens error := by
  rw [readStatements, bind_eq_error, tokenLines_eq_error_iff]
  simp only [tokenLines_eq_ok_iff, readLines_eq_error_iff]
  refine or_congr_right (exists_congr fun tokens => and_congr_right fun htokens => ?_)
  refine firstFault_congr fun line hline cause => ?_
  obtain ⟨index, hindex, rfl⟩ := List.getElem_of_mem hline
  exact ofTokens_eq_error_iff (htokens.get (htokens.length_eq ▸ hindex) hindex)

theorem hasStatements_iff :
    readStatements source.toList = .ok statements ↔ HasStatements source statements := by
  rw [readStatements_eq_ok_iff, Text.Uppercase.splitOn_ofText]
  rfl

/-- After all labels are bound, the labels that are not found are those that are not
defined. -/
theorem linkAll_eq_error_iff_of_bind {table : LabelTable}
    (htable : LabelTable.empty.bind 1 0 statements = .ok table) :
    linkAll table 0 statements = .error error ↔
      FirstFault (JumpsAway (definedLabels statements)) 1 statements error := by
  have hfind : ∀ label, table.find? label = none ↔ label ∉ definedLabels statements := by
    intro label
    rw [find?_of_bind htable]
    split <;> simp [*, LabelTable.find?, LabelTable.empty]
  rw [linkAll_eq_error_iff]
  simp only [hfind]
  rfl

theorem ofStatements_eq_error_iff :
    Compilation.ofStatements statements = .error error ↔
      SecondDefinition statements error ∨ (definedLabels statements).Nodup ∧
        FirstFault (JumpsAway (definedLabels statements)) 1 statements error := by
  have hbind : (∃ table, LabelTable.empty.bind 1 0 statements = .ok table) ↔
      (definedLabels statements).Nodup := exists_bind_iff.trans admits_empty_iff
  rw [Compilation.ofStatements, bind_eq_error, bind_empty_eq_error_iff, ← hbind]
  refine or_congr_right ?_
  constructor
  · rintro ⟨table, htable, hrest⟩
    rcases bind_eq_error.mp hrest with hlink | ⟨placed, -, hreturn⟩
    · exact ⟨⟨table, htable⟩, (linkAll_eq_error_iff_of_bind htable).mp hlink⟩
    · cases hreturn
  · rintro ⟨⟨table, htable⟩, hfirst⟩
    have hlink := (linkAll_eq_error_iff_of_bind htable).mpr hfirst
    exact ⟨table, htable, bind_eq_error.mpr (Or.inl hlink)⟩

theorem length_sourceLines (source : String) :
    (sourceLines source).length = source.toList.count '\n' + 1 := by
  rw [sourceLines, List.length_map, Text.length_splitOn]

/-- The error names a line of the source. -/
theorem FirstError.line_le (hfirst : FirstError source error) :
    1 ≤ error.line ∧ error.line ≤ source.toList.count '\n' + 1 := by
  rw [← length_sourceLines]
  cases hfirst with
  | character hfirst => exact hfirst.line_le
  | line htokens hfirst =>
      rw [htokens.length_eq]
      exact hfirst.line_le
  | undefined hstatements hnodup hfirst =>
      rw [List.Forall₂.length_eq hstatements]
      exact hfirst.line_le
  | duplicate hstatements hsecond =>
      rw [List.Forall₂.length_eq hstatements]
      obtain ⟨earlier, statement, later, -, -, -, rfl, -, -, -, -, hnumber⟩ := hsecond
      rw [hnumber, List.length_append, List.length_cons]
      omega

/-- A source is rejected with the error of the first stage that it does not pass, and
with no other, and the error names a line of the source. -/
theorem compile_eq_error_iff (source : String) (error : CompileError) :
    (compile source = .error error ↔ FirstError source error) ∧
      (compile source = .error error →
        1 ≤ error.line ∧ error.line ≤ source.toList.count '\n' + 1) := by
  have hfirst : compile source = .error error ↔ FirstError source error := by
    rw [compile, compileText, bind_eq_error, readStatements_eq_error_iff]
    simp only [hasStatements_iff, ofStatements_eq_error_iff]
    constructor
    · rintro ((hfirst | ⟨tokens, htokens, hfirst⟩) |
        ⟨statements, hstatements, hsecond | ⟨hnodup, hfirst⟩⟩)
      · exact .character hfirst
      · exact .line htokens hfirst
      · exact .duplicate hstatements hsecond
      · exact .undefined hstatements hnodup hfirst
    · intro herror
      -- one case for every stage
      cases herror with
      | character hfirst => exact Or.inl (Or.inl hfirst)
      | line htokens hfirst => exact Or.inl (Or.inr ⟨_, htokens, hfirst⟩)
      | duplicate hstatements hsecond => exact Or.inr ⟨_, hstatements, Or.inl hsecond⟩
      | undefined hstatements hnodup hfirst =>
          exact Or.inr ⟨_, hstatements, Or.inr ⟨hnodup, hfirst⟩⟩
  exact ⟨hfirst, fun herror => (hfirst.mp herror).line_le⟩

/-- The fault of a line comes before the labels of earlier lines. -/
example : compile "a: jmp away\n# a comment\na: add" = .error ⟨3, .arity (.unary .add) 1 0⟩ := by
  cbv

end Compiling

end NodeGrid.Assembly

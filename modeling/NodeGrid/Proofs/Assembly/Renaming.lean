import NodeGrid.Proofs.Assembly.Errors
import NodeGrid.Proofs.Assembly.Respelling
import NodeGrid.Proofs.Assembly.Translation
import Mathlib.Logic.Equiv.Basic

/-!
# Labels under other names

Labels are only names.  A `Renaming` takes every name for a label to another one, also to
the name of an operation, and no two to the same.  A source is renamed where it defines
labels and where it jumps to them (`Renaming.source`), and its operations stay.  If every
line of it can be read, the renamed source compiles to the same program with the same
lines, and if it cannot be linked, then for the same reason on the same line
(`compile_renamed`).

The renamed lines have the renamed tokens, and these are the renamed statements
(`isLine_tokens`): a word in front of a colon is a label whatever it spells, and so is the
word behind the name of a jump.  After that labels are only compared with one another,
which an injective map does not notice (`Renaming.find?_table`).
-/

namespace NodeGrid.Assembly

/-! ## Names -/

/-- Whether a label can have this name. -/
def isName : List Char → Bool
  | [] => false
  | first :: others =>
    first.isUpper && others.all Token.continuesWord &&
      Register.all.all fun register => register.name.toList != first :: others

/-- Other names for labels, a different one for each. -/
structure Renaming where
  name : { label // isName label } → { label // isName label }
  injective : Function.Injective name

namespace Renaming

variable (names : Renaming)

/-- The new name of a label.  What names no label is kept. -/
def label (letters : List Char) : List Char :=
  if hname : isName letters then names.name ⟨letters, hname⟩ else letters

/-- A word with the labels renamed. -/
def word (word : Word) : Word :=
  Word.ofLetters (names.label word.letters)

/-- The tokens of a line with new names for the labels: the words in front of colons, and
behind them a word that a jump goes to. -/
def tokens : List Token → List Token
  | .word label :: .colon :: rest => .word (names.word label) :: .colon :: tokens rest
  | .word (.jump condition) :: .word label :: rest =>
    .word (.jump condition) :: .word (names.word label) :: rest
  | rest => rest

/-- A line of a text with the labels renamed.  A line that has no tokens stays as it is. -/
def line (line : List Char) : List Char :=
  match Token.scan (Text.Uppercase.ofText line) with
  | .ok tokens => respell line (names.tokens tokens)
  | .error _ => line

/-- The source with new names for its labels. -/
def source (source : String) : String :=
  String.ofList (Text.unlines ((source.toList.splitOn '\n').map names.line))

/-- A draft with its label renamed. -/
def draft : Draft → Draft
  | .ready instruction => .ready instruction
  | .toLabel condition label => .toLabel condition (names.label label)

/-- A statement with its labels renamed. -/
def statement (statement : Statement) : Statement where
  labels := statement.labels.map names.label
  draft := statement.draft.map names.draft

/-- A table with its labels renamed. -/
def table (table : LabelTable) : LabelTable where
  entries := table.entries.map (Prod.map names.label id)

/-- A cause with its label renamed. -/
def cause : Cause → Cause
  | .undefinedLabel label => .undefinedLabel (names.label label)
  | .duplicateLabel label => .duplicateLabel (names.label label)
  | other => other

/-- An error with its label renamed. -/
def error (error : CompileError) : CompileError where
  line := error.line
  cause := names.cause error.cause

/-! ### What is a name stays one -/

variable {names}

@[simp] theorem isName_label (letters : List Char) :
    isName (names.label letters) = isName letters := by
  by_cases hname : isName letters
  · rw [label, dif_pos hname, (names.name ⟨letters, hname⟩).property, hname]
  · rw [label, dif_neg hname]

theorem label_injective : Function.Injective names.label := by
  intro letters others hsame
  have hboth : isName letters = isName others := by
    rw [← names.isName_label letters, hsame, isName_label]
  by_cases hletters : isName letters
  · have hothers : isName others := hboth ▸ hletters
    rw [label, label, dif_pos hletters, dif_pos hothers] at hsame
    exact congrArg Subtype.val (names.injective (Subtype.ext hsame))
  · have hothers : ¬ isName others := hboth ▸ hletters
    rwa [label, label, dif_neg hletters, dif_neg hothers] at hsame

/-! ### Renamed words -/

theorem ofLetters_eq_register_iff {letters : List Char} {register : Register} :
    Word.ofLetters letters = .register register ↔ register.name.toList = letters := by
  constructor
  · intro hword
    rw [← Word.letters_ofLetters letters, hword]
    rfl
  · rintro rfl
    exact Word.ofLetters_letters (List.mem_append_right _ (List.mem_map_of_mem register.mem_all))

/-- The names of labels are the words that may be labels. -/
theorem isName_iff {letters : List Char} :
    isName letters ↔ Lexeme letters (.word (Word.ofLetters letters)) ∧
      IsLabel (Word.ofLetters letters) := by
  have hlabel : IsLabel (Word.ofLetters letters) ↔
      ∀ register ∈ Register.all, register.name.toList ≠ letters := by
    simp only [IsLabel, ne_eq, ofLetters_eq_register_iff, Register.mem_all, forall_const]
  rw [hlabel]
  cases letters with
  | nil => exact iff_of_false (by simp [isName]) fun h => h.1.ne_nil rfl
  | cons first others =>
      simp only [isName, Bool.and_eq_true, List.all_eq_true, bne_iff_ne, continuesWord_iff]
      refine and_congr_left fun _ => ⟨fun h => .word h.1 h.2 (Word.spells_ofLetters _), ?_⟩
      rintro (_ | _)
      exact ⟨‹_›, ‹_›⟩

theorem letters_word (word : Word) : (names.word word).letters = names.label word.letters :=
  Word.letters_ofLetters _

theorem word_of_lexeme {letters : List Char} {word : Word} (hlexeme : Lexeme letters (.word word)) :
    Word.ofLetters word.letters = word := by
  cases hlexeme with
  | word _ _ hspells =>
      rw [hspells.letters_eq]
      exact (Word.spells_iff.mp hspells).symm

/-- A renamed word is spelled as it is written. -/
theorem lexeme_word {word : Word} (hlexeme : Lexeme word.letters (.word word)) :
    Lexeme (names.word word).letters (.word (names.word word)) := by
  by_cases hname : isName word.letters
  · rw [← names.isName_label word.letters] at hname
    rw [letters_word]
    exact (isName_iff.mp hname).1
  · rw [Renaming.word, label, dif_neg hname, word_of_lexeme hlexeme]
    exact hlexeme

/-- A renamed label may be a label. -/
theorem isLabel_word {word : Word} (hlexeme : Lexeme word.letters (.word word))
    (hlabel : IsLabel word) : IsLabel (names.word word) := by
  have hname : isName word.letters := by
    rw [isName_iff, word_of_lexeme hlexeme]
    exact ⟨hlexeme, hlabel⟩
  rw [← names.isName_label word.letters] at hname
  exact (isName_iff.mp hname).2

/-! ### Renamed lines -/

/-- The renamed tokens take the places of the tokens. -/
theorem respells_tokens {tokens : List Token}
    (hlexemes : ∀ token ∈ tokens, Lexeme token.written token) :
    List.Forall₂ Respells tokens (names.tokens tokens) := by
  fun_induction Renaming.tokens names tokens with
  | case1 label rest ih =>
      obtain ⟨hlabel, hcolon, hrest⟩ := by simpa only [List.forall_mem_cons] using hlexemes
      exact .cons (.word _ (lexeme_word hlabel)) (.cons (.same _) (ih hrest))
  | case2 condition label rest =>
      obtain ⟨hjump, hlabel, hrest⟩ := by simpa only [List.forall_mem_cons] using hlexemes
      exact .cons (.same _) (.cons (.word _ (lexeme_word hlabel)) (List.forall₂_same.mpr fun _ _ => .same _))
  | case3 rest => exact List.forall₂_same.mpr fun _ _ => .same _

/-- What a line says under the new names. -/
theorem isLine_tokens {tokens : List Token} {statement : Statement}
    (hlexemes : ∀ token ∈ tokens, Lexeme token.written token) (hline : IsLine tokens statement) :
    IsLine (names.tokens tokens) (names.statement statement) := by
  induction hline with
  | blank => exact .blank
  | operation hoperation =>
      refine .operation ?_
      cases hoperation with
      | plain operation => exact .plain operation
      | unary operation hsource =>
          cases hsource with
          | register register => exact .unary operation (.register register)
          | immediate hdenotes => exact .unary operation (.immediate hdenotes)
      | move hsource target =>
          cases hsource with
          | register register => exact .move (.register register) target
          | immediate hdenotes => exact .move (.immediate hdenotes) target
      | jump condition hdecimal hfits => exact .jump condition hdecimal hfits
      | @toLabel condition label hlabel =>
          -- only labels have new names
          have hlexeme : Lexeme label.letters (.word label) := hlexemes (.word label) (by simp)
          have hjump := IsOperation.toLabel condition (names.isLabel_word hlexeme hlabel)
          rwa [letters_word] at hjump
  | @label word tokens statement hlabel hrest ih =>
      have hlexeme : Lexeme word.letters (.word word) := hlexemes (.word word) (by simp)
      have hothers : ∀ token ∈ tokens, Lexeme token.written token :=
        fun token htoken => hlexemes token (by simp [htoken])
      have hline := IsLine.label (names.isLabel_word hlexeme hlabel) (ih hothers)
      rwa [letters_word] at hline

/-! ### Renamed texts -/

/-- A line that can be read says the same under the new names. -/
theorem line_spec {line : List Char} {tokens : List Token} {statement : Statement}
    (hlexes : Lexes (Text.Uppercase.ofText line) tokens) (hline : IsLine tokens statement) :
    ∃ new, Lexes (Text.Uppercase.ofText (names.line line)) new ∧
      IsLine new (names.statement statement) := by
  have hlexemes := hlexes.lexeme
  have hscan := hlexes.scan
  refine ⟨names.tokens tokens, ?_, names.isLine_tokens hlexemes hline⟩
  rw [Renaming.line, hscan]
  exact scan_eq_ok_iff.mp (scan_respell hscan (respells_tokens hlexemes)).1

theorem not_newline_mem_line {line : List Char} (hline : '\n' ∉ line) :
    '\n' ∉ names.line line := by
  cases hscan : Token.scan (Text.Uppercase.ofText line) with
  | error c => rwa [Renaming.line, hscan]
  | ok tokens =>
      have hrespells := names.respells_tokens (scan_eq_ok_iff.mp hscan).lexeme
      have hnew := scan_eq_ok_iff.mp (scan_respell hscan hrespells).1
      rw [Renaming.line, hscan]
      intro hbreak
      rcases mem_respell hbreak with hin | ⟨token, htoken, hin⟩
      · exact hline hin
      · exact not_isWritten_newline ((hnew.lexeme token htoken).isWritten _ hin)

theorem splitOn_source (source : String) :
    (names.source source).toList.splitOn '\n' =
      (source.toList.splitOn '\n').map names.line := by
  rw [Renaming.source, String.toList_ofList, Text.unlines]
  refine List.splitOn_intercalate '\n' ?_ ?_
  · intro line hline
    obtain ⟨old, hold, rfl⟩ := List.mem_map.mp hline
    exact not_newline_mem_line (Text.not_newline_mem_of_mem_splitOn hold)
  · exact List.map_eq_nil_iff.not.mpr (Text.splitOn_ne_nil source.toList)

theorem readStatements_source {source : String} {statements : List Statement}
    (hread : readStatements source.toList = .ok statements) :
    readStatements (names.source source).toList = .ok (statements.map names.statement) := by
  rw [readStatements_eq_ok_iff, Text.Uppercase.splitOn_ofText] at hread ⊢
  rw [splitOn_source, List.map_map, List.forall₂_map_left_iff, List.forall₂_map_right_iff]
  rw [List.forall₂_map_left_iff] at hread
  refine hread.imp ?_
  rintro line statement ⟨tokens, hlexes, hline⟩
  exact line_spec hlexes hline

/-! ### Linking -/

section Linking

variable {line next target : ℕ} {statements : List Statement}

theorem mapError_error {α : Type} (result : Except Cause α) (line : ℕ) :
    (result.mapError names.cause).mapError (CompileError.mk line) =
      (result.mapError (CompileError.mk line)).mapError names.error := by
  cases result <;> rfl

/-- A table of renamed labels finds what the table finds. -/
theorem find?_table (table : LabelTable) (label : List Char) :
    (names.table table).find? (names.label label) = table.find? label := by
  obtain ⟨entries⟩ := table
  simp only [LabelTable.find?, Renaming.table]
  induction entries with
  | nil => rfl
  | cons entry entries ih =>
      have hbeq : (names.label label == names.label entry.1) = (label == entry.1) := by
        rw [Bool.eq_iff_iff, beq_iff_eq, beq_iff_eq, names.label_injective.eq_iff]
      rw [List.map_cons, List.lookup_cons, List.lookup_cons, Prod.map_fst, hbeq, ih]
      rfl

theorem define_table (table : LabelTable) (label : List Char) :
    (names.table table).define (names.label label) target =
      ((table.define label target).mapError names.cause).map names.table := by
  rw [LabelTable.define, LabelTable.define, find?_table]
  cases table.find? label <;> rfl

theorem defineAll_table (table : LabelTable) (labels : List (List Char)) :
    (names.table table).defineAll target (labels.map names.label) =
      ((table.defineAll target labels).mapError names.cause).map names.table := by
  induction labels generalizing table with
  | nil => rfl
  | cons label rest ih =>
      rw [List.map_cons, LabelTable.defineAll, LabelTable.defineAll, define_table, mapError_bind]
      cases table.define label target with
      | error cause => rfl
      | ok bound => exact ih bound

theorem size_statement (statement : Statement) :
    (names.statement statement).size = statement.size := by
  obtain ⟨labels, _ | draft⟩ := statement <;> rfl

/-- Renamed labels are bound where the labels are. -/
theorem bind_table (table : LabelTable) :
    (names.table table).bind line next (statements.map names.statement) =
      ((table.bind line next statements).mapError names.error).map names.table := by
  induction statements generalizing table line next with
  | nil => rfl
  | cons statement rest ih =>
      rw [List.map_cons, LabelTable.bind, LabelTable.bind, mapError_bind, size_statement,
        Renaming.statement, defineAll_table, ← mapError_error]
      cases table.defineAll next statement.labels with
      | error cause => rfl
      | ok bound => exact ih bound

theorem link_table (table : LabelTable) (draft : Draft) :
    (names.draft draft).link (names.table table) = (draft.link table).mapError names.cause := by
  cases draft with
  | ready instruction => rfl
  | toLabel condition label =>
      simp only [Renaming.draft, Draft.link, LabelTable.resolve, find?_table]
      cases table.find? label <;> rfl

/-- Renamed jumps go where the jumps go. -/
theorem linkAll_table (table : LabelTable) :
    linkAll (names.table table) line (statements.map names.statement) =
      (linkAll table line statements).mapError names.error := by
  induction statements generalizing line with
  | nil => rfl
  | cons statement rest ih =>
      obtain ⟨labels, _ | draft⟩ := statement
      · exact ih
      · have hstatement : names.statement ⟨labels, some draft⟩ =
            ⟨labels.map names.label, some (names.draft draft)⟩ := rfl
        rw [List.map_cons, hstatement, linkAll, linkAll, mapError_bind, ← mapError_error, link_table,
          ih]
        cases draft.link table with
        | error cause => rfl
        | ok instruction => cases linkAll table (line + 1) rest <;> rfl

/-- Renamed statements compile as the statements do. -/
theorem ofStatements_statement (statements : List Statement) :
    Compilation.ofStatements (statements.map names.statement) =
      (Compilation.ofStatements statements).mapError names.error := by
  have hempty : names.table .empty = .empty := rfl
  rw [Compilation.ofStatements, Compilation.ofStatements, mapError_bind, ← hempty, bind_table,
    hempty]
  cases LabelTable.empty.bind 1 0 statements with
  | error broken => rfl
  | ok table =>
      have hlink : linkAll (names.table table) 0 (statements.map names.statement) =
        (linkAll table 0 statements).mapError names.error := linkAll_table table
      simp only [Except.mapError, Except.map, ok_bind, hlink]
      cases linkAll table 0 statements <;> rfl

end Linking

end Renaming

/-- Under other names for its labels, a source whose lines can be read compiles to the same
program with the same lines, or is rejected on the same line because the label with the
other name is defined twice or not at all. -/
theorem compile_renamed (names : Renaming) {source : String} {statements : List Statement}
    (hread : readStatements source.toList = .ok statements) :
    compile (names.source source) = (compile source).mapError names.error ∧
      ∀ error, compile source = .error error → ∃ label,
        error.cause = .duplicateLabel label ∨ error.cause = .undefinedLabel label := by
  have hcompile : compile source = Compilation.ofStatements statements := by
    rw [compile, compileText, hread, ok_bind]
  rw [hcompile]
  constructor
  · rw [compile, compileText, names.readStatements_source hread, ok_bind,
      names.ofStatements_statement]
  · intro error herror
    rcases ofStatements_eq_error_iff.mp herror with hsecond | ⟨-, hfirst⟩
    · obtain ⟨_, _, _, _, label, _, _, _, _, _, hcause, -⟩ := hsecond
      exact ⟨label, Or.inl hcause⟩
    · obtain ⟨_, _, _, _, _, ⟨label, -, -, hcause⟩, -⟩ := hfirst
      exact ⟨label, Or.inr hcause⟩

/-- The names `LOOP` and `ADD` exchanged. -/
def Renaming.exchange : Renaming where
  name := Equiv.swap ⟨"LOOP".toList, by decide⟩ ⟨"ADD".toList, by decide⟩
  injective := Equiv.injective _

/-- A loop, with a remark that its labels do not touch. -/
def counting : String := "loop: add 1  # upwards\njmp loop"

theorem compile_renamed_counting :
    readStatements counting.toList =
        .ok [⟨["LOOP".toList], some (.ready (.unary .add (.immediate 1)))⟩,
          ⟨[], some (.toLabel .always "LOOP".toList)⟩] ∧
      compile (Renaming.exchange.source counting) =
          (compile counting).mapError Renaming.exchange.error ∧
        ∀ error, compile counting = .error error → ∃ label,
          error.cause = .duplicateLabel label ∨ error.cause = .undefinedLabel label := by
  have hread : readStatements counting.toList =
      .ok [⟨["LOOP".toList], some (.ready (.unary .add (.immediate 1)))⟩,
        ⟨[], some (.toLabel .always "LOOP".toList)⟩] :=
    eq_ok_of_beq (by decide +kernel)
  exact ⟨hread, compile_renamed .exchange hread⟩

/-- The operation keeps its name. -/
example : Renaming.exchange.source counting = "ADD: add 1  # upwards\njmp ADD" := by
  cbv

end NodeGrid.Assembly

import NodeGrid.Assembly.Compilation
import NodeGrid.Proofs.Assembly.Lexing
import NodeGrid.Proofs.Text.Lines
import NodeGrid.Proofs.Yields
import NodeGrid.Text.Lines

/-!
# Blank space and comments

Blank space at the end of lines, comments and blank lines do not matter.  A `Spacing` says
what is added to a text: something behind each line, new lines without a statement above
each line, and more of them at the end.  The spaced text compiles to the same program, or
is rejected for the same cause, and only the numbers of the lines change
(`compile_space`).

What is added to a line is no token and continues none (`scan_append`), so the line keeps
its tokens, and a new line has none.  Then a new line is an empty statement, and every
stage of the compiler passes over it and counts it (`readLines_spread`, `bind_pad`,
`linkAll_pad`).  Each of these is an induction on the lines of the text, in which the new
lines above a line come first and then the line itself, at its new `place`.
-/

namespace NodeGrid.Assembly

/-! ## Spacing a text -/

/-- Gaps, and after them perhaps a comment. -/
structure Filler where
  gaps : List { c : Char // Token.isGap c }
  comment : Option { text : List Char // '\n' ∉ text }

/-- The comment with its mark. -/
def Filler.remark (filler : Filler) : List Char :=
  filler.comment.elim [] fun comment => '#' :: comment.val

/-- What a filler writes. -/
def Filler.text (filler : Filler) : List Char :=
  filler.gaps.map Subtype.val ++ filler.remark

/-- What is added to a text.  Its lines are counted from zero. -/
structure Spacing where
  /-- The new lines above a line of the text. -/
  above : ℕ → List Filler
  /-- What is added at the end of a line. -/
  behind : ℕ → Filler
  /-- The new lines below the last one. -/
  below : List Filler

namespace Spacing

variable (spacing : Spacing)

/-- One entry for each line of the spaced text, from the entries for the lines of the text,
of which the first has the number `index`. -/
def spread {α : Type} (blank : Filler → α) (extend : Filler → α → α) (index : ℕ) :
    List α → List α
  | [] => spacing.below.map blank
  | entry :: rest =>
    (spacing.above index).map blank ++
      extend (spacing.behind index) entry :: spread blank extend (index + 1) rest

/-- The entries for the spaced text, with the same one for every new line. -/
def pad {α : Type} (value : α) (index : ℕ) (entries : List α) : List α :=
  spacing.spread (fun _ => value) (fun _ entry => entry) index entries

/-- How many lines of the spaced text come before those that belong to a line. -/
def lead : ℕ → ℕ
  | 0 => 0
  | index + 1 => lead index + (spacing.above index).length + 1

/-- The number that a line has in the spaced text. -/
def place (index : ℕ) : ℕ :=
  spacing.lead index + (spacing.above index).length

/-- The lines of the spaced text. -/
def lines (given : List (List Char)) : List (List Char) :=
  spacing.spread Filler.text (fun filler line => line ++ filler.text) 0 given

/-- The spaced text. -/
def space (source : String) : String :=
  String.ofList (Text.unlines (spacing.lines (source.toList.splitOn '\n')))

/-- The compilation of the spaced text, if this is the one of the text. -/
def move (compilation : Compilation) : Compilation where
  program := compilation.program
  lineMap := compilation.lineMap.map spacing.place

/-- The error in the spaced text, if this is the one in the text. -/
def moveError (error : CompileError) : CompileError where
  line := spacing.place (error.line - 1) + 1
  cause := error.cause

end Spacing

/-! ## What is added to a line -/

section Filler

/-- What a part of a text stops at, it stops at in a longer text. -/
theorem takeWhile_append_of_head {isPart : Char → Bool} {rest : List Char}
    (hstops : ∀ c, rest.head? = some c → isPart c = false) (text : List Char) :
    (text ++ rest).takeWhile isPart = text.takeWhile isPart ∧
      (text ++ rest).dropWhile isPart = text.dropWhile isPart ++ rest := by
  induction text with
  | nil => exact takeWhile_append_of_stops (by simp) hstops
  | cons c text ih => cases hc : isPart c <;> simp [hc, ih]

/-- What starts no token and continues none can be left out at the end of a line. -/
theorem scan_append {rest : List Char} (hrest : Token.scan rest = .ok [])
    (hstops : ∀ c, rest.head? = some c → Token.continuesWord c = false) (line : List Char) :
    Token.scan (line ++ rest) = Token.scan line := by
  have hdigits : ∀ c, rest.head? = some c → c.isDigit = false := by
    intro c hc
    have hstop := hstops c hc
    rw [Token.continuesWord, Bool.or_eq_false_iff] at hstop
    exact hstop.2
  -- nor does what follows make a sign the start of a number
  have hstarts : ∀ text, Token.startsWithDigit (text ++ rest) = Token.startsWithDigit text := by
    intro text
    cases text with
    | nil =>
        cases rest with
        | nil => rfl
        | cons c rest => simp [Token.startsWithDigit, hdigits c rfl]
    | cons c text => rfl
  -- the scanner takes the same branch with and without what follows
  fun_induction Token.scan line with
  | case1 => exact hrest
  | case2 c text hgap ih => rw [List.cons_append, scan_gap hgap, ih]
  | case3 text hgap => exact scan_comment
  | case4 text hgap hcomment ih => rw [List.cons_append, scan_colon, ih, return_cons]
  | case5 text hgap hcomment hcolon ih => rw [List.cons_append, scan_comma, ih, return_cons]
  | case6 c text hgap hcomment hcolon hcomma hupper word ih =>
      obtain ⟨htake, hdrop⟩ := takeWhile_append_of_head hstops text
      rw [List.cons_append, scan_of_not_isMark (not_isMark_of_isUpper hupper), if_pos hupper,
        htake, hdrop, ih, return_cons]
  | case7 c text hgap hcomment hcolon hcomma hupper hnumeral numeral ih =>
      obtain ⟨htake, hdrop⟩ := takeWhile_append_of_head hdigits text
      have hmark : ¬ IsMark c := by simp [IsMark, hgap, hcomment, hcolon, hcomma]
      rw [List.cons_append, scan_of_not_isMark hmark, if_neg hupper, hstarts, if_pos hnumeral,
        htake, hdrop, ih, return_cons]
  | case8 c text hgap hcomment hcolon hcomma hupper hnumeral =>
      have hmark : ¬ IsMark c := by simp [IsMark, hgap, hcomment, hcolon, hcomma]
      rw [List.cons_append, scan_of_not_isMark hmark, if_neg hupper, hstarts, if_neg hnumeral]

/-- The separators of tokens have no other case. -/
theorem IsMark.ofChar_eq {c : Char} (hmark : IsMark c) : Text.Uppercase.ofChar c = [c] := by
  simp only [isMark_iff, List.mem_cons, List.not_mem_nil, or_false] at hmark
  rcases hmark with rfl | rfl | rfl | rfl | rfl | rfl | rfl <;> rfl

theorem IsMark.not_continuesWord {c : Char} (hmark : IsMark c) :
    Token.continuesWord c = false := by
  simp only [isMark_iff, List.mem_cons, List.not_mem_nil, or_false] at hmark
  rcases hmark with rfl | rfl | rfl | rfl | rfl | rfl | rfl <;> rfl

namespace Filler

variable (filler : Filler)

/-- What is added to a line starts with a gap or with a comment. -/
theorem isMark_head : ∀ c, filler.text.head? = some c → IsMark c := by
  intro c hhead
  obtain ⟨gaps, comment⟩ := filler
  cases gaps with
  | nil =>
      cases comment with
      | none => cases hhead
      | some comment =>
          cases hhead
          exact Or.inr (Or.inl rfl)
  | cons gap gaps =>
      cases hhead
      exact Or.inl gap.property

theorem not_newline_mem_text : '\n' ∉ filler.text := by
  have hgaps : '\n' ∉ filler.gaps.map Subtype.val := by
    intro hmem
    obtain ⟨gap, -, hgap⟩ := List.mem_map.mp hmem
    have hbreak := gap.property
    rw [hgap] at hbreak
    exact absurd hbreak (by decide)
  have hremark : '\n' ∉ filler.remark := by
    unfold remark
    cases filler.comment with
    | none => simp
    | some comment => simpa using comment.property
  exact List.not_mem_append hgaps hremark

theorem scan_text : Token.scan (Text.Uppercase.ofText filler.text) = .ok [] := by
  obtain ⟨gaps, comment⟩ := filler
  induction gaps with
  | nil =>
      cases comment with
      | none => simp [text, remark, Token.scan]
      | some comment => exact scan_comment
  | cons gap gaps ih =>
      have hgap : IsMark gap := Or.inl gap.property
      have htext : text ⟨gap :: gaps, comment⟩ = gap.val :: text ⟨gaps, comment⟩ := rfl
      rw [htext, Text.Uppercase.ofText_cons, hgap.ofChar_eq, List.singleton_append,
        scan_gap gap.property, ih]

theorem stops_text : ∀ c, (Text.Uppercase.ofText filler.text).head? = some c →
    Token.continuesWord c = false := by
  intro c hhead
  cases htext : filler.text with
  | nil => simp [htext] at hhead
  | cons first others =>
      have hmark : IsMark first := filler.isMark_head first (by rw [htext]; rfl)
      rw [htext, Text.Uppercase.ofText_cons, hmark.ofChar_eq] at hhead
      cases hhead
      exact hmark.not_continuesWord

/-- A line has the same tokens with something added to its end. -/
theorem scan_line (line : List Char) :
    Token.scan (Text.Uppercase.ofText (line ++ filler.text)) =
      Token.scan (Text.Uppercase.ofText line) := by
  rw [Text.Uppercase.ofText_append, scan_append filler.scan_text filler.stops_text]

end Filler

end Filler

/-! ## The stages of the compiler -/

namespace Spacing

variable {α β : Type} {spacing : Spacing}

theorem pad_nil {value : α} {index : ℕ} :
    spacing.pad value index [] = List.replicate spacing.below.length value ++ [] := by
  rw [pad, spread, List.map_const', List.append_nil]

theorem pad_cons {value entry : α} {index : ℕ} {rest : List α} :
    spacing.pad value index (entry :: rest) =
      List.replicate (spacing.above index).length value ++
        entry :: spacing.pad value (index + 1) rest := by
  rw [pad, spread, List.map_const']
  rfl

theorem lead_succ (index : ℕ) : spacing.lead (index + 1) = spacing.place index + 1 := rfl

/-- The error of a line moves with the line. -/
theorem mapError_moveError (result : Except Cause β) (index : ℕ) :
    (result.mapError (CompileError.mk (index + 1))).mapError spacing.moveError =
      result.mapError (CompileError.mk (spacing.place index + 1)) := by
  cases result <;> rfl

/-- New lines are passed over in reading. -/
theorem readLines_blanks {read : α → Except Cause β} {value : β} {blanks : List α}
    (hblank : ∀ blank ∈ blanks, read blank = .ok value) (first : ℕ) (lines : List α) :
    readLines read first (blanks ++ lines) =
      (readLines read (first + blanks.length) lines).map (List.replicate blanks.length value ++ ·) := by
  induction blanks generalizing first with
  | nil => cases hread : readLines read first lines <;> simp [Except.map, hread]
  | cons blank blanks ih =>
      obtain ⟨hfirst, hothers⟩ := List.forall_mem_cons.mp hblank
      have hlength : first + 1 + blanks.length = first + (blank :: blanks).length := by
        rw [List.length_cons]
        omega
      rw [List.cons_append, readLines, hfirst, ih hothers, hlength]
      cases readLines read (first + (blank :: blanks).length) lines <;> rfl

/-- Lines are read as before, with nothing to read on the new ones. -/
theorem readLines_spread {read : α → Except Cause β} {blank : Filler → α}
    {extend : Filler → α → α} {value : β} (hblank : ∀ filler, read (blank filler) = .ok value)
    (hextend : ∀ filler line, read (extend filler line) = read line) (index : ℕ)
    (lines : List α) :
    readLines read (spacing.lead index + 1) (spacing.spread blank extend index lines) =
      ((readLines read (index + 1) lines).mapError spacing.moveError).map
        (spacing.pad value index) := by
  have hblanks : ∀ fillers : List Filler, ∀ entry ∈ fillers.map blank, read entry = .ok value := by
    simp [hblank]
  induction lines generalizing index with
  | nil =>
      rw [spread, ← List.append_nil (List.map _ _), readLines_blanks (hblanks _), List.length_map]
      simp [readLines, Except.map, Except.mapError, pad_nil]
  | cons line rest ih =>
      have hrest := ih (index + 1)
      rw [lead_succ] at hrest
      rw [spread, readLines_blanks (hblanks _), List.length_map, readLines, readLines,
        hextend, mapError_bind, mapError_moveError, Nat.add_right_comm, ← place, hrest]
      -- the first line that is refused ends the reading of both
      cases read line with
      | error cause => rfl
      | ok first =>
          cases readLines read (index + 1 + 1) rest with
          | error broken => rfl
          | ok values => simp [Except.mapError, Except.map, pad_cons]

/-- New lines define no labels. -/
theorem bind_blanks (table : LabelTable) (line next length : ℕ) (statements : List Statement) :
    table.bind line next (List.replicate length ⟨[], none⟩ ++ statements) =
      table.bind (line + length) next statements := by
  induction length generalizing line with
  | zero => rfl
  | succ length ih =>
      have hline : line + 1 + length = line + (length + 1) := by omega
      rw [← hline, ← ih]
      rfl

/-- Labels are bound as before. -/
theorem bind_pad (table : LabelTable) (index next : ℕ) (statements : List Statement) :
    table.bind (spacing.lead index + 1) next (spacing.pad ⟨[], none⟩ index statements) =
      (table.bind (index + 1) next statements).mapError spacing.moveError := by
  induction statements generalizing table index next with
  | nil =>
      rw [pad_nil, bind_blanks]
      rfl
  | cons statement rest ih =>
      rw [pad_cons, bind_blanks, LabelTable.bind, LabelTable.bind, mapError_bind,
        mapError_moveError, Nat.add_right_comm, ← place]
      cases table.defineAll next statement.labels with
      | error cause => rfl
      | ok bound => exact ih bound (index + 1) (next + statement.size)

/-- New lines hold no instructions. -/
theorem linkAll_blanks (table : LabelTable) (line length : ℕ) (statements : List Statement) :
    linkAll table line (List.replicate length ⟨[], none⟩ ++ statements) =
      linkAll table (line + length) statements := by
  induction length generalizing line with
  | zero => rfl
  | succ length ih =>
      have hline : line + 1 + length = line + (length + 1) := by omega
      rw [← hline, ← ih]
      rfl

/-- Jumps are linked as before. -/
theorem linkAll_pad (table : LabelTable) (index : ℕ) (statements : List Statement) :
    linkAll table (spacing.lead index) (spacing.pad ⟨[], none⟩ index statements) =
      ((linkAll table index statements).mapError spacing.moveError).map
        (List.map (Prod.map id spacing.place)) := by
  induction statements generalizing index with
  | nil =>
      rw [pad_nil, linkAll_blanks]
      rfl
  | cons statement rest ih =>
      have hrest := ih (index + 1)
      rw [pad_cons, linkAll_blanks, ← place]
      obtain ⟨labels, _ | draft⟩ := statement
      · exact hrest
      · rw [linkAll, linkAll, mapError_bind, mapError_moveError, ← lead_succ, hrest]
        cases draft.link table with
        | error cause => rfl
        | ok instruction => cases linkAll table (index + 1) rest <;> rfl

/-- Statements compile to the same program with nothing on the new lines. -/
theorem ofStatements_pad (statements : List Statement) :
    Compilation.ofStatements (spacing.pad ⟨[], none⟩ 0 statements) =
      ((Compilation.ofStatements statements).mapError spacing.moveError).map spacing.move := by
  have hbind := spacing.bind_pad .empty 0 0 statements
  rw [lead, Nat.zero_add] at hbind
  rw [Compilation.ofStatements, Compilation.ofStatements, hbind]
  cases LabelTable.empty.bind 1 0 statements with
  | error broken => rfl
  | ok table =>
      have hlink := spacing.linkAll_pad table 0 statements
      rw [lead] at hlink
      simp only [Except.mapError, ok_bind, hlink]
      cases linkAll table 0 statements with
      | error broken => rfl
      | ok placed => simp [Except.map, move]

end Spacing

/-! ## The lines of the spaced text -/

namespace Spacing

variable {α : Type} {spacing : Spacing}

/-- A line of the spaced text is a new one or a line of the text with something added. -/
theorem mem_lines {line : List Char} {index : ℕ} {lines : List (List Char)}
    (hmem : line ∈ spacing.spread Filler.text (fun filler line => line ++ filler.text) index lines) :
    ∃ start, (start = [] ∨ start ∈ lines) ∧ ∃ filler : Filler, line = start ++ filler.text := by
  induction lines generalizing index with
  | nil =>
      obtain ⟨filler, -, rfl⟩ := List.mem_map.mp hmem
      exact ⟨[], Or.inl rfl, filler, rfl⟩
  | cons first rest ih =>
      simp only [spread, List.mem_append, List.mem_cons] at hmem
      rcases hmem with hnew | rfl | hlater
      · obtain ⟨filler, -, rfl⟩ := List.mem_map.mp hnew
        exact ⟨[], Or.inl rfl, filler, rfl⟩
      · exact ⟨first, Or.inr List.mem_cons_self, _, rfl⟩
      · obtain ⟨start, hstart, hfiller⟩ := ih hlater
        exact ⟨start, hstart.imp_right (List.mem_cons_of_mem first), hfiller⟩

/-- A line of the text stands at its place, counted from the start of what is spread. -/
theorem getElem?_spread (blank : Filler → α) (extend : Filler → α → α) (index : ℕ) {offset : ℕ}
    {entries : List α} {entry : α} (hentry : entries[offset]? = some entry) :
    ∃ position, spacing.lead index + position = spacing.place (index + offset) ∧
      (spacing.spread blank extend index entries)[position]? =
        some (extend (spacing.behind (index + offset)) entry) := by
  induction entries generalizing index offset with
  | nil => cases hentry
  | cons first rest ih =>
      have hlength : ((spacing.above index).map blank).length = (spacing.above index).length :=
        List.length_map blank
      -- the first of the lines stands behind the blank ones above it
      cases offset with
      | zero =>
          cases hentry
          refine ⟨(spacing.above index).length, rfl, ?_⟩
          rw [spread, ← hlength, List.getElem?_append_right (Nat.le_refl _), Nat.sub_self]
          rfl
      | succ offset =>
          obtain ⟨position, hplace, hposition⟩ := ih (index + 1) hentry
          rw [Nat.add_right_comm index 1 offset] at hplace hposition
          refine ⟨(spacing.above index).length + (position + 1), ?_, ?_⟩
          · rw [← Nat.add_assoc index offset 1, ← hplace, lead_succ, place]
            omega
          · rw [spread, ← hlength, List.getElem?_append_right (Nat.le_add_right _ _),
              Nat.add_sub_cancel_left, List.getElem?_cons_succ, hposition]
            rfl

/-- The spaced text has the lines that it was made of. -/
theorem splitOn_space (source : String) :
    (spacing.space source).toList.splitOn '\n' = spacing.lines (source.toList.splitOn '\n') := by
  rw [space, String.toList_ofList, Text.unlines]
  refine List.splitOn_intercalate '\n' ?_ ?_
  · intro line hline hbreak
    obtain ⟨start, hstart, filler, rfl⟩ := mem_lines hline
    rcases List.mem_append.mp hbreak with hin | hin
    · rcases hstart with rfl | hstart
      · cases hin
      · exact Text.not_newline_mem_of_mem_splitOn hstart hin
    · exact filler.not_newline_mem_text hin
  · obtain ⟨first, rest, hlines⟩ := List.exists_cons_of_ne_nil (Text.splitOn_ne_nil source.toList)
    simp [hlines, lines, spread]

theorem readLines_map {α β γ : Type} {read : β → Except Cause γ} (f : α → β) (first : ℕ)
    (lines : List α) : readLines read first (lines.map f) = readLines (read ∘ f) first lines := by
  induction lines generalizing first with
  | nil => rfl
  | cons line rest ih => rw [List.map_cons, readLines, readLines, ih, Function.comp_apply]

/-- The tokens of a text that is read in upper case. -/
theorem tokenLines_ofText (text : List Char) :
    tokenLines (Text.Uppercase.ofText text) =
      readLines (fun line => (Token.scan (Text.Uppercase.ofText line)).mapError .strayCharacter) 1
        (text.splitOn '\n') := by
  rw [tokenLines, Text.Uppercase.splitOn_ofText, readLines_map]
  rfl

/-- The spaced text has the same statements, and empty ones on the new lines. -/
theorem readStatements_space (source : String) :
    readStatements (spacing.space source).toList =
      ((readStatements source.toList).mapError spacing.moveError).map
        (spacing.pad ⟨[], none⟩ 0) := by
  have hscan : tokenLines (Text.Uppercase.ofText (spacing.space source).toList) =
      ((tokenLines (Text.Uppercase.ofText source.toList)).mapError spacing.moveError).map
        (spacing.pad [] 0) := by
    rw [tokenLines_ofText, tokenLines_ofText, splitOn_space]
    refine readLines_spread (fun filler => ?_) (fun filler line => ?_) 0 _
    · rw [filler.scan_text]
      rfl
    · rw [filler.scan_line]
  rw [readStatements, readStatements, hscan]
  cases tokenLines (Text.Uppercase.ofText source.toList) with
  | error broken => rfl
  | ok tokens =>
      have hempty : Statement.ofTokens [] = .ok ⟨[], none⟩ := rfl
      exact readLines_spread (fun _ => hempty) (fun _ _ => rfl) 0 tokens

end Spacing

/-- Blank space, comments and blank lines change nothing but the numbers of lines.  A line
of the text stands at its place in the spaced text. -/
theorem compile_space (spacing : Spacing) (source : String) :
    compile (spacing.space source) =
        ((compile source).mapError spacing.moveError).map spacing.move ∧
      ∀ index line, (source.toList.splitOn '\n')[index]? = some line →
        ((spacing.space source).toList.splitOn '\n')[spacing.place index]? =
          some (line ++ (spacing.behind index).text) := by
  constructor
  · rw [compile, compile, compileText, compileText, Spacing.readStatements_space]
    cases readStatements source.toList with
    | error broken => rfl
    | ok statements => exact Spacing.ofStatements_pad statements
  · intro index line hline
    obtain ⟨position, hplace, hposition⟩ := spacing.getElem?_spread Filler.text
      (fun filler line => line ++ filler.text) 0 hline
    rw [Nat.zero_add] at hplace hposition
    rw [Spacing.splitOn_space, ← hplace, Spacing.lead, Nat.zero_add]
    exact hposition

end NodeGrid.Assembly

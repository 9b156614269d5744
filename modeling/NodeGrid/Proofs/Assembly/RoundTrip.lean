import NodeGrid.Assembly.Written
import NodeGrid.Proofs.Assembly.Translation

/-!
# Written programs are read back

A written program is compiled to the program itself, with one line for each
instruction.

A written instruction consists of lexemes with a blank or a comma after each but
the last, and such a lexeme is always the longest one (`Longest.of_separated`).
This gives the tokens of the instruction (`lexes_written`), which are a line of
the grammar (`isOperation_tokens`).  The characters that are written are in upper
case and break no line (`IsWritten`), so the lines of the written program are its
written instructions.
-/

namespace NodeGrid

/-- The index that the instruction jumps to is an unsigned word. -/
def Instruction.FitsWord (instruction : Instruction) : Prop :=
  ∀ target ∈ instruction.jumpTarget?, target < 2 ^ 64

namespace Assembly

/-! ## Numerals -/

theorem isDecimal_writeCount (number : ℕ) : IsDecimal (Text.writeCount number) number where
  ne_nil := Text.writeCount_ne_nil number
  isDigit := fun _ hmem => Text.isDigit_of_mem_writeCount hmem
  eq := Nat.ofDigitChars_toDigits (by decide) (by decide)

theorem denotes_writeValue (value : Int64) : Denotes (Text.writeValue value) value.toInt := by
  unfold Text.writeValue
  cases value.toInt with
  | ofNat magnitude => exact .positive (isDecimal_writeCount magnitude)
  | negSucc magnitude => exact .negative (isDecimal_writeCount (magnitude + 1))

theorem isNumeral_writeCount (number : ℕ) : IsNumeral (Text.writeCount number) :=
  ⟨_, .positive (isDecimal_writeCount number)⟩

theorem isNumeral_writeValue (value : Int64) : IsNumeral (Text.writeValue value) :=
  ⟨_, denotes_writeValue value⟩

/-! ## Tokens -/

/-- The token that writes an operand. -/
def operandToken : Operand → Token
  | .immediate value => .number (Text.writeValue value)
  | .register source => .word (.register source)

/-- The tokens that write an instruction. -/
def instructionTokens : Instruction → List Token
  | .plain operation => [.word (.plain operation)]
  | .unary operation source => [.word (.unary operation), operandToken source]
  | .move source target =>
    [.word .move, operandToken source, .comma, .word (.register target)]
  | .jump condition target => [.word (.jump condition), .number (Text.writeCount target)]

/-- A reserved word is a capital letter followed by capital letters and digits. -/
theorem exists_letters_of_reserved {word : Word} (hreserved : word ∈ Word.reserved) :
    ∃ first others, word.letters = first :: others ∧ first.isUpper ∧
      ∀ c ∈ others, Token.continuesWord c = true := by
  have hshape : ∀ word ∈ Word.reserved, word.letters.head?.any Char.isUpper = true ∧
      word.letters.tail.all Token.continuesWord = true := by decide
  obtain ⟨hhead, htail⟩ := hshape word hreserved
  cases hletters : word.letters with
  | nil => simp [hletters] at hhead
  | cons first others =>
      rw [hletters] at hhead htail
      exact ⟨first, others, rfl, by simpa using hhead, List.all_eq_true.mp htail⟩

theorem lexeme_word (word : Word) (hreserved : word ≠ .name word.letters) :
    Lexeme word.letters (.word word) := by
  have hmem : word ∈ Word.reserved := by
    refine word.mem_reserved_or_eq_name.resolve_right ?_
    rintro ⟨letters, rfl⟩
    exact hreserved rfl
  obtain ⟨first, others, hletters, hfirst, hothers⟩ := exists_letters_of_reserved hmem
  have hspells := Word.spells_ofLetters word.letters
  rw [Word.ofLetters_letters hmem, hletters] at hspells
  rw [hletters]
  exact .word hfirst (fun c hc => continuesWord_iff.mp (hothers c hc)) hspells

theorem lexeme_operand (source : Operand) : Lexeme source.written (operandToken source) := by
  cases source with
  | immediate value => exact .number (isNumeral_writeValue value)
  | register register => exact lexeme_word (.register register) (by simp)

/-! ## The tokens of a written instruction -/

theorem Lexeme.ne_nil {text : List Char} {token : Token} (hlexeme : Lexeme text token) :
    text ≠ [] := by
  cases hlexeme with
  | number hnumeral =>
      obtain ⟨first, others, rfl⟩ := hnumeral.exists_cons
      exact List.cons_ne_nil first others
  | word hfirst hothers hspells => exact List.cons_ne_nil _ _
  | colon | comma => exact List.cons_ne_nil _ _

/-- A lexeme ends where a blank or a comma follows. -/
theorem Longest.of_separated {text rest : List Char} {token : Token} (hlexeme : Lexeme text token)
    (hseparated : ∀ c ∈ rest.head?, c = ' ' ∨ c = ',') : Longest text rest token := by
  obtain ⟨first, others, rfl⟩ := List.exists_cons_of_ne_nil hlexeme.ne_nil
  refine Longest.of_stops hlexeme (?_ : ∀ c more other, _ → Token.continuesWord c = true) ?_
  · intro c more other hlonger
    rcases hlonger.cases_head with ⟨-, hall⟩ | ⟨-, hall⟩ | ⟨-, hnil⟩
    · exact hall c (by simp)
    · exact continuesWord_iff.mpr (Or.inr (hall c (by simp)))
    · simp at hnil
  · intro c hc
    rcases hseparated c hc with rfl | rfl <;> rfl

section Separated

variable {text rest : List Char} {token : Token} {tokens : List Token}

theorem Lexes.last (hlexeme : Lexeme text token) : Lexes text [token] := by
  have hlongest : Longest text [] token := .of_separated hlexeme (by simp)
  simpa using Lexes.token hlongest .nothing

theorem Lexes.blank (hlexeme : Lexeme text token) (hrest : Lexes rest tokens) :
    Lexes (text ++ ' ' :: rest) (token :: tokens) :=
  .token (.of_separated hlexeme (by simp)) (.gap (by simp) hrest)

theorem Lexes.comma (hlexeme : Lexeme text token) (hrest : Lexes rest tokens) :
    Lexes (text ++ ',' :: ' ' :: rest) (token :: .comma :: tokens) :=
  .token (.of_separated hlexeme (by simp))
    (.token (Longest.of_mark .comma (Or.inr rfl)) (.gap (by simp) hrest))

end Separated

/-- A written instruction is cut into its tokens. -/
theorem lexes_written (instruction : Instruction) :
    Lexes instruction.written (instructionTokens instruction) := by
  cases instruction with
  | plain operation => exact .last (lexeme_word (.plain operation) (by simp))
  | unary operation source =>
      exact .blank (lexeme_word (.unary operation) (by simp)) (.last (lexeme_operand source))
  | move source target =>
      have htarget := Lexes.last (lexeme_word (.register target) (by simp))
      have hoperands := Lexes.comma (lexeme_operand source) htarget
      have hwhole := Lexes.blank (lexeme_word .move (by simp)) hoperands
      simpa [Instruction.written, instructionTokens, Word.letters] using hwhole
  | jump condition target =>
      exact .blank (lexeme_word (.jump condition) (by simp))
        (.last (.number (isNumeral_writeCount target)))

theorem isSource_operandToken (source : Operand) : IsSource (operandToken source) source := by
  cases source with
  | immediate value => exact .immediate (denotes_writeValue value)
  | register register => exact .register register

/-- The tokens of an instruction are read as the instruction. -/
theorem isOperation_tokens {instruction : Instruction} (hfits : instruction.FitsWord) :
    IsOperation (instructionTokens instruction) (.ready instruction) := by
  cases instruction with
  | plain operation => exact .plain operation
  | unary operation source => exact .unary operation (isSource_operandToken source)
  | move source target => exact .move (isSource_operandToken source) target
  | jump condition target => exact .jump condition (isDecimal_writeCount target) (hfits target rfl)

/-! ## The lines of a written program -/

/-- The characters that instructions are written with. -/
def IsWritten (c : Char) : Prop := Token.continuesWord c = true ∨ c ∈ ['-', ':', ',', ' ']

theorem IsWritten.ofChar_eq {c : Char} (hwritten : IsWritten c) :
    Text.Uppercase.ofChar c = [c] := by
  -- the ranges of characters become ranges of numbers
  have h0 : ('0' : Char).val.toNat = 48 := rfl
  have h9 : ('9' : Char).val.toNat = 57 := rfl
  have hA : ('A' : Char).val.toNat = 65 := rfl
  have hZ : ('Z' : Char).val.toNat = 90 := rfl
  have ha : ('a' : Char).val.toNat = 97 := rfl
  rcases hwritten with hcontinues | hmark
  · have hupper : c.isUpper = decide ('A'.val ≤ c.val ∧ c.val ≤ 'Z'.val) := rfl
    simp only [Token.continuesWord, hupper, Char.isDigit, Bool.or_eq_true, Bool.and_eq_true,
      decide_eq_true_eq, UInt32.le_iff_toNat_le, ge_iff_le] at hcontinues
    have hascii : c.toNat < 128 := by
      rw [Char.toNat]
      omega
    have hnotLower : ¬ ('a' ≤ c ∧ c ≤ 'z') := by
      rw [Char.le_def, UInt32.le_iff_toNat_le]
      omega
    rw [Text.Uppercase.ofChar, if_pos hascii, Text.Uppercase.ofAscii, if_neg hnotLower]
  · simp only [List.mem_cons, List.not_mem_nil, or_false] at hmark
    rcases hmark with rfl | rfl | rfl | rfl <;> rfl

theorem ofText_of_isWritten {text : List Char} (htext : ∀ c ∈ text, IsWritten c) :
    Text.Uppercase.ofText text = text := by
  rw [Text.Uppercase.ofText, List.flatMap_congr fun c hc => (htext c hc).ofChar_eq]
  exact List.flatMap_singleton' _

theorem not_isWritten_newline : ¬ IsWritten '\n' := by
  rintro (hcontinues | hmark)
  · exact absurd hcontinues (by decide)
  · exact absurd hmark (by decide)

theorem Lexeme.isWritten {text : List Char} {token : Token} (hlexeme : Lexeme text token) :
    ∀ c ∈ text, IsWritten c := by
  obtain ⟨first, others, rfl⟩ := List.exists_cons_of_ne_nil hlexeme.ne_nil
  rw [List.forall_mem_cons]
  rcases hlexeme.cases_head with ⟨hupper, hall⟩ | ⟨hstarts, hall⟩ | ⟨hmark, rfl⟩
  · exact ⟨Or.inl (continuesWord_iff.mpr (Or.inl hupper)), fun c hc => Or.inl (hall c hc)⟩
  · refine ⟨?_, fun c hc => Or.inl (continuesWord_iff.mpr (Or.inr (hall c hc)))⟩
    rcases hstarts with hdigit | rfl
    · exact Or.inl (continuesWord_iff.mpr (Or.inr hdigit))
    · exact Or.inr (by simp)
  · rcases hmark with rfl | rfl <;> exact ⟨Or.inr (by simp), by simp⟩

theorem isWritten_written (instruction : Instruction) : ∀ c ∈ instruction.written, IsWritten c := by
  have hblank : IsWritten ' ' := Or.inr (by simp)
  have hcomma : IsWritten ',' := Or.inr (by simp)
  -- all words but names are spelled in capital letters
  have hword : ∀ word : Word, word ≠ .name word.letters → ∀ c ∈ word.letters, IsWritten c :=
    fun word hreserved => (lexeme_word word hreserved).isWritten
  cases instruction with
  | plain operation => exact hword (.plain operation) (by simp)
  | unary operation source =>
      have hname := hword (.unary operation) (by simp)
      have hsource := (lexeme_operand source).isWritten
      simpa [Instruction.written, or_imp, forall_and, hblank] using ⟨hname, hsource⟩
  | move source target =>
      have hname := hword .move (by simp)
      have hsource := (lexeme_operand source).isWritten
      have htarget := hword (.register target) (by simp)
      simpa [Instruction.written, or_imp, forall_and, hblank, hcomma] using
        ⟨hname, hsource, htarget⟩
  | jump condition target =>
      have hname := hword (.jump condition) (by simp)
      have htarget := (Lexeme.number (isNumeral_writeCount target)).isWritten
      simpa [Instruction.written, or_imp, forall_and, hblank] using ⟨hname, htarget⟩

theorem ofText_written (instruction : Instruction) :
    Text.Uppercase.ofText instruction.written = instruction.written :=
  ofText_of_isWritten (isWritten_written instruction)

/-- A written program is read in upper case as it stands. -/
theorem ofText_unlines (program : Program) :
    Text.Uppercase.ofText program.written = program.written := by
  rw [Program.written, Text.unlines]
  induction program with
  | nil => rfl
  | cons instruction rest ih =>
      cases rest with
      | nil => simpa using ofText_written instruction
      | cons next others =>
          simp only [List.map_cons, List.intercalate_cons_cons] at ih ⊢
          rw [Text.Uppercase.ofText_append, Text.Uppercase.ofText_append, ofText_written, ih]
          rfl

/-- A written program has one line for each instruction. -/
theorem splitOn_written {program : Program} (hne : program ≠ []) :
    program.written.splitOn '\n' = program.map Instruction.written := by
  refine List.splitOn_intercalate '\n' ?_ (by simpa using hne)
  intro line hline
  obtain ⟨instruction, -, rfl⟩ := List.mem_map.mp hline
  exact fun hmem => not_isWritten_newline (isWritten_written instruction _ hmem)

/-! ## Compiling -/

/-- The statements of a written program.  A program without instructions is
written as one blank line. -/
def writtenStatements (program : Program) : List Statement :=
  if program = [] then [⟨[], none⟩]
  else program.map fun instruction => ⟨[], some (.ready instruction)⟩

theorem readStatements_written {program : Program}
    (hfits : ∀ instruction ∈ program, instruction.FitsWord) :
    readStatements program.written = .ok (writtenStatements program) := by
  rw [readStatements_eq_ok_iff, ofText_unlines, writtenStatements]
  split
  · rename_i hempty
    subst hempty
    exact .cons ⟨[], .nothing, .blank⟩ .nil
  · rename_i hne
    rw [splitOn_written hne, List.forall₂_map_left_iff, List.forall₂_map_right_iff,
      List.forall₂_same]
    exact fun instruction hmem =>
      ⟨_, lexes_written instruction, .operation (isOperation_tokens (hfits instruction hmem))⟩

theorem definedLabels_written (program : Program) :
    definedLabels (writtenStatements program) = [] := by
  unfold writtenStatements definedLabels
  split <;> simp [List.flatMap_map]

theorem usedLabels_written (program : Program) : usedLabels (writtenStatements program) = [] := by
  unfold writtenStatements usedLabels
  split <;> simp [List.filterMap_map, Function.comp_def, Draft.label?]

theorem placedDrafts_written (program : Program) :
    placedDrafts 0 (writtenStatements program) =
      program.zipIdx.map fun (instruction, line) => (.ready instruction, line) := by
  unfold writtenStatements placedDrafts
  split
  · rename_i hempty
    subst hempty
    rfl
  · rw [List.zipIdx_map, List.filterMap_map]
    simp [Prod.map]

theorem translation_written (program : Program) :
    translation (writtenStatements program) = ⟨program, List.range program.length⟩ := by
  rw [translation, placedDrafts_written]
  simp only [List.map_map, Function.comp_def, Draft.instruction]
  rw [List.zipIdx_map_fst, List.zipIdx_map_snd, List.range_eq_range']

/-- The characters of a written program are compiled to the program. -/
theorem compileText_written {program : Program}
    (hfits : ∀ instruction ∈ program, instruction.FitsWord) :
    compileText program.written = .ok ⟨program, List.range program.length⟩ := by
  have hnodup : (definedLabels (writtenStatements program)).Nodup := by
    rw [definedLabels_written]
    exact List.nodup_nil
  have hdefined : ∀ label ∈ usedLabels (writtenStatements program),
      label ∈ definedLabels (writtenStatements program) := by
    simp [usedLabels_written]
  rw [compileText, readStatements_written hfits, ok_bind, ofStatements_eq_ok hnodup hdefined,
    translation_written]

theorem fitsWord_of_isLine {instruction : Instruction} {statement : Statement}
    (hline : IsLine (instructionTokens instruction) statement) : instruction.FitsWord := by
  cases instruction with
  | jump condition target =>
      cases hline with
      | operation hoperation =>
          cases hoperation with
          | jump condition hdecimal hfits =>
              rintro _ ⟨⟩
              rwa [(isDecimal_writeCount target).eq.symm.trans hdecimal.eq]
  | _ => simp [Instruction.FitsWord, Instruction.jumpTarget?]

/-- A written program is compiled only if its jumps lead to words. -/
theorem fitsWord_of_compileText {program : Program} {compilation : Compilation}
    (hcompile : compileText program.written = .ok compilation) :
    ∀ instruction ∈ program, instruction.FitsWord := by
  obtain ⟨statements, hread, -⟩ := bind_eq_ok.mp hcompile
  rw [readStatements_eq_ok_iff, ofText_unlines] at hread
  intro instruction hmem
  rw [splitOn_written (List.ne_nil_of_mem hmem), List.forall₂_map_left_iff] at hread
  obtain ⟨index, hindex, rfl⟩ := List.mem_iff_getElem.mp hmem
  obtain ⟨tokens, hlexes, hline⟩ := hread.get hindex (hread.length_eq ▸ hindex)
  rw [List.get_eq_getElem] at hlexes
  -- a line has only one list of tokens
  have htokens := (scan_eq_ok_iff.mpr hlexes).symm.trans
    (scan_eq_ok_iff.mpr (lexes_written program[index]))
  cases htokens
  exact fitsWord_of_isLine hline

theorem compile_text_eq (program : Program) : compile program.text = compileText program.written := by
  rw [compile, Program.text, String.toList_ofList]

/-- Writing a program and compiling it gives the program, with one line for each
instruction, whatever its length, its literals and the indices that it jumps to. -/
theorem compile_text {program : Program} (hfits : ∀ instruction ∈ program, instruction.FitsWord) :
    compile program.text = .ok ⟨program, List.range program.length⟩ := by
  rw [compile, Program.text, String.toList_ofList, compileText_written hfits]

/-- The least value and the greatest index, far behind the end of the program. -/
def extremes : Program :=
  [.move (.immediate Int64.minValue) (.port .left), .unary .sub (.register .nil), .plain .neg,
    .jump .nonzero (2 ^ 64 - 1)]

theorem compile_text_extremes :
    (∀ instruction ∈ extremes, instruction.FitsWord) ∧
      compile extremes.text = .ok ⟨extremes, [0, 1, 2, 3]⟩ := by
  have hfits : ∀ instruction ∈ extremes, instruction.FitsWord := by
    simp [extremes, Instruction.FitsWord, Instruction.jumpTarget?]
  exact ⟨hfits, compile_text hfits⟩

end Assembly

end NodeGrid

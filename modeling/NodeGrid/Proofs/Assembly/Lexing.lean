import NodeGrid.Assembly.Token
import NodeGrid.Text.Numeral
import Mathlib.Algebra.GroupWithZero.Nat
import Mathlib.Data.Int.Notation

/-!
# The tokens of a line

What a line is made up of, said without cutting it.  A `Lexeme` is a text that
makes up one token, and a line is cut into the longest lexemes there are
(`Lexes`).  What a numeral means is said by `Denotes`.

Cutting a line into tokens succeeds exactly on these lines and gives their tokens
(`scan_eq_ok_iff`), and numerals are read as what they denote
(`readValue?_eq_some_iff`, `readCount?_eq_some_iff`).
-/

namespace NodeGrid.Assembly

/-! ## Numerals -/

/-- The digits write the number in decimal. -/
structure IsDecimal (digits : List Char) (number : ℕ) : Prop where
  ne_nil : digits ≠ []
  isDigit : ∀ c ∈ digits, c.isDigit
  eq : Nat.ofDigitChars 10 digits 0 = number

/-- The numeral writes the integer, perhaps with a minus sign. -/
inductive Denotes : List Char → ℤ → Prop where
  | positive {digits : List Char} {number : ℕ} (hdigits : IsDecimal digits number) :
      Denotes digits number
  | negative {digits : List Char} {number : ℕ} (hdigits : IsDecimal digits number) :
      Denotes ('-' :: digits) (-(number : ℤ))

theorem readDigits?_eq_some_iff {text : List Char} {number : ℕ} :
    Text.readDigits? text = some number ↔ IsDecimal text number := by
  unfold Text.readDigits?
  constructor
  · intro hread
    split at hread
    · rename_i htext
      cases hread
      exact ⟨htext.1, fun c hc => List.all_eq_true.mp htext.2 c hc, rfl⟩
    · cases hread
  · rintro ⟨hne, hdigits, rfl⟩
    rw [if_pos ⟨hne, List.all_eq_true.mpr hdigits⟩]

/-- Digits start with no sign. -/
theorem IsDecimal.afterSign?_eq_none {digits : List Char} {number : ℕ}
    (hdigits : IsDecimal digits number) {sign : Char} (hsign : sign.isDigit = false) :
    Text.afterSign? sign digits = none := by
  cases digits with
  | nil => exact absurd rfl hdigits.ne_nil
  | cons c rest =>
      have hdigit : c.isDigit := hdigits.isDigit c List.mem_cons_self
      have hne : c ≠ sign := by
        rintro rfl
        simp [hsign] at hdigit
      simp [Text.afterSign?, hne]

theorem readInt?_of_denotes {numeral : List Char} {number : ℤ} (hnumeral : Denotes numeral number) :
    Text.readInt? numeral = some number := by
  cases hnumeral with
  | positive hdigits =>
      simp [Text.readInt?, hdigits.afterSign?_eq_none, readDigits?_eq_some_iff.mpr hdigits]
  | negative hdigits =>
      simp [Text.readInt?, Text.afterSign?, readDigits?_eq_some_iff.mpr hdigits]

/-- A numeral of a token has an integer. -/
def IsNumeral (numeral : List Char) : Prop := ∃ number, Denotes numeral number

theorem fitsValue_iff {number : ℤ} :
    Text.fitsValue number = true ↔ ∃ value : Int64, value.toInt = number := by
  simp only [Text.fitsValue, Bool.and_eq_true, decide_eq_true_eq]
  constructor
  · rintro ⟨hlow, hhigh⟩
    exact ⟨Int64.ofInt number, Int64.toInt_ofInt_of_le hlow (Int.lt_of_le_of_lt hhigh (by decide))⟩
  · rintro ⟨value, rfl⟩
    exact ⟨Int64.le_iff_toInt_le.mp value.minValue_le, Int64.le_iff_toInt_le.mp value.le_maxValue⟩

/-- A value is read off a numeral exactly if the numeral writes it. -/
theorem readValue?_eq_some_iff {numeral : List Char} (hnumeral : IsNumeral numeral) {value : Int64} :
    Text.readValue? numeral = some value ↔ Denotes numeral value.toInt := by
  obtain ⟨number, hnumber⟩ := hnumeral
  have hread := readInt?_of_denotes hnumber
  constructor
  · intro hvalue
    simp only [Text.readValue?, hread, Option.filter_some] at hvalue
    split at hvalue
    · rename_i hfits
      obtain ⟨exact, rfl⟩ := fitsValue_iff.mp hfits
      rw [Option.map_some, Int64.ofInt_toInt] at hvalue
      cases hvalue
      exact hnumber
    · cases hvalue
  · intro hvalue
    -- a numeral denotes one number only
    have hsame := hread.symm.trans (readInt?_of_denotes hvalue)
    cases hsame
    have hfits := fitsValue_iff.mpr ⟨value, rfl⟩
    simp [Text.readValue?, hread, Option.filter_some, hfits]

/-- An index is read off a numeral exactly if the numeral writes it in digits and
it fits. -/
theorem readCount?_eq_some_iff {numeral : List Char} (hnumeral : IsNumeral numeral) {index : ℕ} :
    Text.readCount? numeral = some index ↔ IsDecimal numeral index ∧ index < 2 ^ 64 := by
  obtain ⟨number, hnumber⟩ := hnumeral
  have hplus : Text.afterSign? '+' numeral = none := by
    cases hnumber with
    | positive hdigits => exact hdigits.afterSign?_eq_none rfl
    | negative hdigits => rfl
  have hfits : Text.fitsCount index = true ↔ index < 2 ^ 64 := by
    simp [Text.fitsCount, UInt64.size]
  rw [Text.readCount?, hplus, Option.getD_none, Option.filter_eq_some_iff, hfits,
    readDigits?_eq_some_iff]

/-! ## Tokens -/

/-- The word is spelled with these letters.  A reserved word is never taken for a
name. -/
structure Word.Spells (word : Word) (letters : List Char) : Prop where
  letters_eq : word.letters = letters
  eq_of_reserved : ∀ other ∈ Word.reserved, other.letters = letters → word = other

/-- Every word but a name is reserved. -/
theorem Word.mem_reserved_or_eq_name (word : Word) :
    word ∈ Word.reserved ∨ ∃ letters, word = .name letters := by
  cases word with
  | plain operation => cases operation <;> exact Or.inl (by decide)
  | unary operation => cases operation <;> exact Or.inl (by decide)
  | move => exact Or.inl (by decide)
  | jump condition => cases condition <;> exact Or.inl (by decide)
  | register named =>
      refine Or.inl (List.mem_append_right _ (List.mem_map.mpr ⟨named, named.mem_all, rfl⟩))
  | name letters => exact Or.inr ⟨letters, rfl⟩

theorem Word.spells_ofLetters (letters : List Char) : (Word.ofLetters letters).Spells letters where
  letters_eq := letters_ofLetters letters
  eq_of_reserved := fun other hother hletters => by rw [← hletters, ofLetters_letters hother]

/-- Letters spell one word. -/
theorem Word.spells_iff {word : Word} {letters : List Char} :
    word.Spells letters ↔ word = Word.ofLetters letters := by
  constructor
  · intro hspells
    have hfound := spells_ofLetters letters
    rcases (Word.ofLetters letters).mem_reserved_or_eq_name with hreserved | ⟨other, hother⟩
    · exact hspells.eq_of_reserved _ hreserved hfound.letters_eq
    · rcases word.mem_reserved_or_eq_name with hreserved | ⟨name, rfl⟩
      · exact (hfound.eq_of_reserved _ hreserved hspells.letters_eq).symm
      -- two names with the same letters
      · have hletters := hspells.letters_eq.trans hfound.letters_eq.symm
        rw [hother] at hletters ⊢
        exact congrArg Word.name hletters
  · rintro rfl
    exact spells_ofLetters letters

/-- The text makes up the token. -/
inductive Lexeme : List Char → Token → Prop where
  | word {first : Char} {others : List Char} {word : Word} (hfirst : first.isUpper)
      (hothers : ∀ c ∈ others, c.isUpper ∨ c.isDigit) (hspells : word.Spells (first :: others)) :
      Lexeme (first :: others) (.word word)
  | number {numeral : List Char} (hnumeral : IsNumeral numeral) :
      Lexeme numeral (.number numeral)
  | colon : Lexeme [':'] .colon
  | comma : Lexeme [','] .comma

/-- The text at the start of `text ++ rest` makes up the token, and no longer text
there makes up a token. -/
structure Longest (text rest : List Char) (token : Token) : Prop where
  lexeme : Lexeme text token
  eq_nil : ∀ more other, more <+: rest → Lexeme (text ++ more) other → more = []

/-- The line is made up of these tokens, of blanks between them and of a comment
at the end. -/
inductive Lexes : List Char → List Token → Prop where
  | nothing : Lexes [] []
  | gap {c : Char} {rest : List Char} {tokens : List Token}
      (hgap : c ∈ [' ', '\t', '\r', '\x0c']) (hrest : Lexes rest tokens) :
      Lexes (c :: rest) tokens
  | comment (text : List Char) : Lexes ('#' :: text) []
  | token {text rest : List Char} {token : Token} {tokens : List Token}
      (hlongest : Longest text rest token) (hrest : Lexes rest tokens) :
      Lexes (text ++ rest) (token :: tokens)

/-! ## Cutting a line into tokens -/

theorem isGap_iff {c : Char} : Token.isGap c = true ↔ c ∈ [' ', '\t', '\r', '\x0c'] := by
  simp [Token.isGap, or_assoc]

theorem continuesWord_iff {c : Char} : Token.continuesWord c = true ↔ c.isUpper ∨ c.isDigit := by
  simp [Token.continuesWord]

theorem IsNumeral.exists_cons {numeral : List Char} (hnumeral : IsNumeral numeral) :
    ∃ first others, numeral = first :: others := by
  obtain ⟨number, hdigits | hdigits⟩ := hnumeral
  · exact List.exists_cons_of_ne_nil hdigits.ne_nil
  · exact ⟨_, _, rfl⟩

theorem isNumeral_cons_iff {c : Char} {text : List Char} :
    IsNumeral (c :: text) ↔
      (c.isDigit ∨ c = '-' ∧ text ≠ []) ∧ ∀ d ∈ text, d.isDigit := by
  constructor
  · rintro ⟨number, hdigits | hdigits⟩
    · exact ⟨Or.inl (hdigits.isDigit c List.mem_cons_self),
        fun d hd => hdigits.isDigit d (List.mem_cons_of_mem c hd)⟩
    · exact ⟨Or.inr ⟨rfl, hdigits.ne_nil⟩, hdigits.isDigit⟩
  · rintro ⟨hfirst | ⟨rfl, hne⟩, hdigits⟩
    · exact ⟨_, .positive ⟨List.cons_ne_nil c text, List.forall_mem_cons.mpr ⟨hfirst, hdigits⟩, rfl⟩⟩
    · exact ⟨_, .negative ⟨hne, hdigits, rfl⟩⟩

/-- The first character decides which token a text can make up. -/
theorem Lexeme.cases_head {c : Char} {text : List Char} {token : Token}
    (hlexeme : Lexeme (c :: text) token) :
    (c.isUpper ∧ ∀ d ∈ text, Token.continuesWord d = true) ∨
      ((c.isDigit ∨ c = '-') ∧ ∀ d ∈ text, d.isDigit) ∨ (c = ':' ∨ c = ',') ∧ text = [] := by
  generalize hwhole : c :: text = whole at hlexeme
  cases hlexeme with
  | word hfirst hothers hspells =>
      cases hwhole
      exact Or.inl ⟨hfirst, fun d hd => continuesWord_iff.mpr (hothers d hd)⟩
  | number hnumeral =>
      rw [← hwhole, isNumeral_cons_iff] at hnumeral
      exact Or.inr (Or.inl ⟨hnumeral.1.imp_right And.left, hnumeral.2⟩)
  | colon =>
      cases hwhole
      exact Or.inr (Or.inr ⟨Or.inl rfl, rfl⟩)
  | comma =>
      cases hwhole
      exact Or.inr (Or.inr ⟨Or.inr rfl, rfl⟩)

/-- A lexeme that all longer lexemes continue with a character of `isPart` is the
longest one where no such character follows. -/
theorem Longest.of_stops {isPart : Char → Bool} {text rest : List Char} {token : Token}
    (hlexeme : Lexeme text token)
    (hpart : ∀ c more other, Lexeme (text ++ c :: more) other → isPart c = true)
    (hstops : ∀ c, rest.head? = some c → isPart c = false) : Longest text rest token := by
  refine ⟨hlexeme, fun more other hmore hlonger => ?_⟩
  cases more with
  | nil => rfl
  | cons c more =>
      obtain ⟨left, rfl⟩ := hmore
      have hin := hpart c more other hlonger
      rw [hstops c rfl] at hin
      cases hin

theorem Longest.stops {isPart : Char → Bool} {text rest : List Char} {token : Token}
    (hlongest : Longest text rest token)
    (hpart : ∀ c, isPart c = true → ∃ other, Lexeme (text ++ [c]) other) :
    ∀ c, rest.head? = some c → isPart c = false := by
  intro c hhead
  cases hin : isPart c with
  | false => rfl
  | true =>
      obtain ⟨other, hlonger⟩ := hpart c hin
      obtain ⟨left, rfl⟩ := List.head?_eq_some_iff.mp hhead
      exact absurd (hlongest.eq_nil [c] other ⟨left, rfl⟩ hlonger) (List.cons_ne_nil c [])

theorem head?_dropWhile {isPart : Char → Bool} (text : List Char) :
    ∀ c, (text.dropWhile isPart).head? = some c → isPart c = false := by
  intro c hhead
  have hnot := List.head?_dropWhile_not isPart text
  rwa [hhead] at hnot

theorem takeWhile_append_of_stops {isPart : Char → Bool} {text rest : List Char}
    (htext : ∀ c ∈ text, isPart c = true) (hstops : ∀ c, rest.head? = some c → isPart c = false) :
    (text ++ rest).takeWhile isPart = text ∧ (text ++ rest).dropWhile isPart = rest := by
  rw [List.takeWhile_append_of_pos htext, List.dropWhile_append_of_pos htext]
  cases rest with
  | nil => simp
  | cons c rest => simp [hstops c rfl]

section Lexemes

variable {c first : Char} {others numeral rest : List Char}

theorem not_isUpper_of_isDigit (hdigit : c.isDigit) : c.isUpper = false := by
  have hupper : c.isUpper = decide ('A'.val ≤ c.val ∧ c.val ≤ 'Z'.val) := rfl
  simp only [hupper, Char.isDigit, Bool.and_eq_true, decide_eq_true_eq, decide_eq_false_iff_not,
    UInt32.le_iff_toNat_le, ge_iff_le] at hdigit ⊢
  have h0 : ('0' : Char).val.toNat = 48 := rfl
  have h9 : ('9' : Char).val.toNat = 57 := rfl
  have hA : ('A' : Char).val.toNat = 65 := rfl
  omega

theorem longest_word_iff (hfirst : first.isUpper)
    (hothers : ∀ d ∈ others, Token.continuesWord d = true) :
    Longest (first :: others) rest (.word (Word.ofLetters (first :: others))) ↔
      ∀ d, rest.head? = some d → Token.continuesWord d = false := by
  have hlexeme : ∀ others, (∀ d ∈ others, Token.continuesWord d = true) →
      Lexeme (first :: others) (.word (Word.ofLetters (first :: others))) :=
    fun others hothers => .word hfirst (fun d hd => continuesWord_iff.mp (hothers d hd))
      (Word.spells_ofLetters _)
  constructor
  · intro hlongest
    refine hlongest.stops fun d hd => ⟨_, hlexeme (others ++ [d]) ?_⟩
    simpa [or_imp, forall_and] using ⟨hothers, hd⟩
  · refine Longest.of_stops (hlexeme others hothers) fun d more other hlonger => ?_
    rcases hlonger.cases_head with ⟨-, hall⟩ | ⟨hdigit | rfl, -⟩ | ⟨rfl | rfl, -⟩
    · exact hall d (by simp)
    · simp [not_isUpper_of_isDigit hdigit] at hfirst
    all_goals simp at hfirst

theorem longest_number_iff (hnumeral : IsNumeral numeral) :
    Longest numeral rest (.number numeral) ↔ ∀ d, rest.head? = some d → d.isDigit = false := by
  obtain ⟨first, others, rfl⟩ := hnumeral.exists_cons
  obtain ⟨hfirst, hothers⟩ := isNumeral_cons_iff.mp hnumeral
  constructor
  · intro hlongest
    refine hlongest.stops fun d hd => ⟨_, .number (isNumeral_cons_iff.mpr ⟨?_, ?_⟩)⟩
    · exact hfirst.imp_right fun hminus => ⟨hminus.1, by simp⟩
    · simpa [or_imp, forall_and] using ⟨hothers, hd⟩
  · refine Longest.of_stops (.number hnumeral) fun d more other hlonger => ?_
    rcases hlonger.cases_head with ⟨hupper, -⟩ | ⟨-, hall⟩ | ⟨-, hnil⟩
    -- a numeral starts with no letter
    · rcases hfirst with hdigit | ⟨rfl, -⟩
      · simp [not_isUpper_of_isDigit hdigit] at hupper
      · simp at hupper
    · exact hall d (by simp)
    · simp at hnil

/-- A sign between words is a token of its own, whatever follows. -/
theorem Longest.of_mark {token : Token} (hlexeme : Lexeme [c] token) (hmark : c = ':' ∨ c = ',') :
    Longest [c] rest token := by
  refine ⟨hlexeme, fun more other _ hlonger => ?_⟩
  rcases hlonger.cases_head with ⟨hupper, -⟩ | ⟨hdigit | hminus, -⟩ | ⟨-, hnil⟩
  · rcases hmark with rfl | rfl <;> simp at hupper
  · rcases hmark with rfl | rfl <;> simp at hdigit
  · rcases hmark with rfl | rfl <;> simp at hminus
  · exact hnil

end Lexemes

/-- A numeral starts where `scan` starts one. -/
theorem isNumeral_takeWhile_iff {c : Char} {text : List Char} :
    IsNumeral (c :: text.takeWhile Char.isDigit) ↔
      (c.isDigit || (c == '-' && Token.startsWithDigit text)) = true := by
  have hdigits : ∀ d ∈ text.takeWhile Char.isDigit, d.isDigit :=
    List.all_eq_true.mp List.all_takeWhile
  have hstarts : text.takeWhile Char.isDigit ≠ [] ↔ Token.startsWithDigit text = true := by
    cases text with
    | nil => simp [Token.startsWithDigit]
    | cons d text => cases hd : d.isDigit <;> simp [Token.startsWithDigit, hd]
  rw [isNumeral_cons_iff, hstarts]
  simp only [Bool.or_eq_true, Bool.and_eq_true, beq_iff_eq, and_iff_left hdigits]

/-! The cases of `scan` -/

section Scan

variable {c : Char} {rest : List Char}

theorem scan_gap (hgap : Token.isGap c = true) : Token.scan (c :: rest) = Token.scan rest := by
  rw [Token.scan, if_pos hgap]

theorem scan_comment : Token.scan ('#' :: rest) = .ok [] := by
  rw [Token.scan, if_neg (by decide), if_pos rfl]

/-- What a line goes on with after a token. -/
theorem return_cons {token : Token} {tokens : Except Char (List Token)} :
    (do return token :: (← tokens)) = tokens.map (token :: ·) := by
  cases tokens <;> rfl

theorem scan_colon : Token.scan (':' :: rest) = (Token.scan rest).map (.colon :: ·) := by
  rw [Token.scan, if_neg (by decide), if_neg (by decide), if_pos rfl, return_cons]

theorem scan_comma : Token.scan (',' :: rest) = (Token.scan rest).map (.comma :: ·) := by
  rw [Token.scan, if_neg (by decide), if_neg (by decide), if_neg (by decide), if_pos rfl,
    return_cons]

/-- The characters that stand for themselves. -/
def IsMark (c : Char) : Prop := Token.isGap c = true ∨ c = '#' ∨ c = ':' ∨ c = ','

theorem isMark_iff : IsMark c ↔ c ∈ [' ', '\t', '\r', '\x0c', '#', ':', ','] := by
  simp [IsMark, isGap_iff, or_assoc]

theorem scan_of_not_isMark (hmark : ¬ IsMark c) :
    Token.scan (c :: rest) =
      if c.isUpper then
        (Token.scan (rest.dropWhile Token.continuesWord)).map
          (.word (Word.ofLetters (c :: rest.takeWhile Token.continuesWord)) :: ·)
      else if c.isDigit || (c == '-' && Token.startsWithDigit rest) then
        (Token.scan (rest.dropWhile Char.isDigit)).map
          (.number (c :: rest.takeWhile Char.isDigit) :: ·)
      else
        .error c := by
  simp only [IsMark, not_or] at hmark
  obtain ⟨hgap, hcomment, hcolon, hcomma⟩ := hmark
  rw [Token.scan, if_neg hgap, if_neg hcomment, if_neg hcolon, if_neg hcomma, return_cons,
    return_cons]

theorem not_isMark_of_isUpper (hupper : c.isUpper) : ¬ IsMark c := by
  intro hmark
  simp only [isMark_iff, List.mem_cons, List.not_mem_nil, or_false] at hmark
  rcases hmark with rfl | rfl | rfl | rfl | rfl | rfl | rfl <;> exact absurd hupper (by decide)

theorem not_isMark_of_starts (hstarts : c.isDigit ∨ c = '-') : ¬ IsMark c := by
  intro hmark
  simp only [isMark_iff, List.mem_cons, List.not_mem_nil, or_false] at hmark
  rcases hmark with rfl | rfl | rfl | rfl | rfl | rfl | rfl <;> exact absurd hstarts (by decide)

theorem not_isUpper_of_starts (hstarts : c.isDigit ∨ c = '-') : c.isUpper = false := by
  rcases hstarts with hdigit | rfl
  · exact not_isUpper_of_isDigit hdigit
  · rfl

end Scan

/-- A token at the start of a line is cut off. -/
theorem Longest.scan_eq {text rest : List Char} {token : Token}
    (hlongest : Longest text rest token) :
    Token.scan (text ++ rest) = (Token.scan rest).map (token :: ·) := by
  have hlexeme := hlongest.lexeme
  -- each kind of token is cut off by a branch of its own
  cases hlexeme with
  | @word first others word hfirst hothers hspells =>
      have hall : ∀ d ∈ others, Token.continuesWord d = true :=
        fun d hd => continuesWord_iff.mpr (hothers d hd)
      obtain rfl := Word.spells_iff.mp hspells
      obtain ⟨htake, hdrop⟩ :=
        takeWhile_append_of_stops hall ((longest_word_iff hfirst hall).mp hlongest)
      rw [List.cons_append, scan_of_not_isMark (not_isMark_of_isUpper hfirst), if_pos hfirst, htake,
        hdrop]
  | number hnumeral =>
      have hstops := (longest_number_iff hnumeral).mp hlongest
      obtain ⟨first, others, rfl⟩ := hnumeral.exists_cons
      obtain ⟨hfirst, hothers⟩ := isNumeral_cons_iff.mp hnumeral
      have hstarts := hfirst.imp_right And.left
      obtain ⟨htake, hdrop⟩ := takeWhile_append_of_stops hothers hstops
      -- whether a sign starts a number is decided by the character behind it
      have hcut : (first.isDigit || (first == '-' && Token.startsWithDigit (others ++ rest))) := by
        rwa [← isNumeral_takeWhile_iff, htake]
      rw [List.cons_append, scan_of_not_isMark (not_isMark_of_starts hstarts),
        if_neg (by simp [not_isUpper_of_starts hstarts]), if_pos hcut, htake, hdrop]
  | colon => exact scan_colon
  | comma => exact scan_comma

theorem Lexes.scan {line : List Char} {tokens : List Token} (hlexes : Lexes line tokens) :
    Token.scan line = .ok tokens := by
  induction hlexes with
  | nothing => rw [Token.scan]
  | gap hgap hrest ih => rw [scan_gap (isGap_iff.mpr hgap), ih]
  | comment text => exact scan_comment
  | token hlongest hrest ih => rw [hlongest.scan_eq, ih, Except.map]

/-- The numbers of a line are numerals. -/
theorem Lexes.isNumeral {line : List Char} {tokens : List Token} (hlexes : Lexes line tokens) :
    ∀ numeral, .number numeral ∈ tokens → IsNumeral numeral := by
  induction hlexes with
  | nothing | comment text => simp
  | gap hgap hrest ih => exact ih
  | token hlongest hrest ih =>
      intro numeral hmem
      rcases List.mem_cons.mp hmem with rfl | hlater
      · cases hlongest.lexeme with
        | number hnumeral => exact hnumeral
      · exact ih numeral hlater

theorem map_cons_eq_ok {token : Token} {rest : Except Char (List Token)} {tokens : List Token} :
    rest.map (token :: ·) = .ok tokens ↔ ∃ others, rest = .ok others ∧ tokens = token :: others := by
  cases rest <;> simp [Except.map, eq_comm]

/-- A word in upper case is as long as it can be. -/
theorem exists_longest_word {c : Char} (rest : List Char) (hupper : c.isUpper) :
    ∃ text, Longest text (rest.dropWhile Token.continuesWord)
        (.word (Word.ofLetters (c :: rest.takeWhile Token.continuesWord))) ∧
      text ++ rest.dropWhile Token.continuesWord = c :: rest := by
  have hall := List.all_eq_true.mp (List.all_takeWhile (p := Token.continuesWord) (l := rest))
  refine ⟨_, (longest_word_iff hupper hall).mpr (head?_dropWhile rest), ?_⟩
  rw [List.cons_append, List.takeWhile_append_dropWhile]

/-- So is a numeral. -/
theorem exists_longest_number {c : Char} {rest : List Char}
    (hstarts : (c.isDigit || (c == '-' && Token.startsWithDigit rest)) = true) :
    ∃ text, Longest text (rest.dropWhile Char.isDigit)
        (.number (c :: rest.takeWhile Char.isDigit)) ∧
      text ++ rest.dropWhile Char.isDigit = c :: rest := by
  refine ⟨_, (longest_number_iff (isNumeral_takeWhile_iff.mpr hstarts)).mpr
    (head?_dropWhile rest), ?_⟩
  rw [List.cons_append, List.takeWhile_append_dropWhile]

/-- A line is cut into tokens exactly if it is made up of them. -/
theorem scan_eq_ok_iff {line : List Char} {tokens : List Token} :
    Token.scan line = .ok tokens ↔ Lexes line tokens := by
  refine ⟨fun hscan => ?_, Lexes.scan⟩
  -- each branch of the scanner takes one gap, the comment or the longest token
  fun_induction Token.scan line generalizing tokens with
  | case1 =>
      cases hscan
      exact .nothing
  | case2 c rest hgap ih => exact .gap (isGap_iff.mp hgap) (ih hscan)
  | case3 rest hgap =>
      cases hscan
      exact .comment rest
  | case4 rest hgap hcomment ih =>
      obtain ⟨others, hothers, rfl⟩ := map_cons_eq_ok.mp (return_cons.symm.trans hscan)
      exact .token (Longest.of_mark .colon (Or.inl rfl)) (ih hothers)
  | case5 rest hgap hcomment hcolon ih =>
      obtain ⟨others, hothers, rfl⟩ := map_cons_eq_ok.mp (return_cons.symm.trans hscan)
      exact .token (Longest.of_mark .comma (Or.inr rfl)) (ih hothers)
  | case6 c rest hgap hcomment hcolon hcomma hupper =>
      rename_i ih
      obtain ⟨others, hothers, rfl⟩ := map_cons_eq_ok.mp (return_cons.symm.trans hscan)
      obtain ⟨text, hlongest, htext⟩ := exists_longest_word rest hupper
      rw [← htext]
      exact .token hlongest (ih hothers)
  | case7 c rest hgap hcomment hcolon hcomma hupper hstarts =>
      rename_i ih
      obtain ⟨others, hothers, rfl⟩ := map_cons_eq_ok.mp (return_cons.symm.trans hscan)
      obtain ⟨text, hlongest, htext⟩ := exists_longest_number hstarts
      rw [← htext]
      exact .token hlongest (ih hothers)
  | case8 => cases hscan

end NodeGrid.Assembly

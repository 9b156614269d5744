import NodeGrid.Proofs.Assembly.Lexing
import NodeGrid.Proofs.Text.Pieces

/-!
# What numerals write

A numeral may have a plus sign, and one of a value a minus sign instead (`WritesCount`,
`WritesInt`).  A count or a value is read off a text exactly if the text is a numeral that
writes it (`readCount?_eq_some_iff`, `readValue?_eq_some_iff`).

There are no blanks in a numeral, no commas and no equals signs (`WritesInt.isInner`), so
that numerals can be told from what stands between them.
-/

namespace NodeGrid.Text

open Assembly (IsDecimal readDigits?_eq_some_iff fitsValue_iff)

/-- The numeral is made up of digits, perhaps after a plus sign, and writes the number. -/
inductive WritesCount : List Char → ℕ → Prop where
  | digits {digits : List Char} {number : ℕ} (hdigits : IsDecimal digits number) :
      WritesCount digits number
  | plus {digits : List Char} {number : ℕ} (hdigits : IsDecimal digits number) :
      WritesCount ('+' :: digits) number

/-- The numeral writes the integer, perhaps with a sign. -/
inductive WritesInt : List Char → ℤ → Prop where
  | positive {numeral : List Char} {number : ℕ} (hcount : WritesCount numeral number) :
      WritesInt numeral number
  | negative {digits : List Char} {number : ℕ} (hdigits : IsDecimal digits number) :
      WritesInt ('-' :: digits) (-(number : ℤ))

theorem afterSign?_eq_some_iff {sign : Char} {text rest : List Char} :
    afterSign? sign text = some rest ↔ text = sign :: rest := by
  cases text with
  | nil => simp [afterSign?]
  | cons c others => simp [afterSign?]

theorem WritesCount.afterMinus?_eq_none {numeral : List Char} {number : ℕ}
    (hcount : WritesCount numeral number) : afterSign? '-' numeral = none := by
  cases hcount with
  | digits hdigits => exact hdigits.afterSign?_eq_none rfl
  | plus hdigits => rfl

/-! ## Reading numerals -/

section Reading

variable {text : List Char} {number : ℕ}

/-- Digits are read after a plus sign, if there is one. -/
theorem readUnsigned_eq_some_iff :
    readDigits? ((afterSign? '+' text).getD text) = some number ↔ WritesCount text number := by
  constructor
  · intro hread
    cases hsign : afterSign? '+' text with
    | none =>
        rw [hsign] at hread
        exact .digits (readDigits?_eq_some_iff.mp hread)
    | some digits =>
        rw [hsign] at hread
        rw [afterSign?_eq_some_iff.mp hsign]
        exact .plus (readDigits?_eq_some_iff.mp hread)
  · intro hcount
    cases hcount with
    | digits hdigits =>
        rw [hdigits.afterSign?_eq_none rfl]
        exact readDigits?_eq_some_iff.mpr hdigits
    | plus hdigits => exact readDigits?_eq_some_iff.mpr hdigits

theorem readCount?_eq_some_iff :
    readCount? text = some number ↔ WritesCount text number ∧ number < 2 ^ 64 := by
  have hfits : fitsCount number = true ↔ number < 2 ^ 64 := by
    simp [fitsCount, UInt64.size]
  rw [readCount?, Option.filter_eq_some_iff, hfits, readUnsigned_eq_some_iff]

theorem readInt?_eq_some_iff {number : ℤ} :
    readInt? text = some number ↔ WritesInt text number := by
  constructor
  · intro hread
    unfold readInt? at hread
    split at hread
    · rename_i digits hsign
      obtain ⟨magnitude, hdigits, rfl⟩ : ∃ magnitude : ℕ,
          readDigits? digits = some magnitude ∧ -(magnitude : ℤ) = number := by
        simpa [Option.bind_eq_some_iff] using hread
      rw [afterSign?_eq_some_iff.mp hsign]
      exact .negative (readDigits?_eq_some_iff.mp hdigits)
    · obtain ⟨magnitude, hcount, rfl⟩ : ∃ magnitude : ℕ,
          readDigits? ((afterSign? '+' text).getD text) = some magnitude ∧ magnitude = number := by
        simpa [Option.bind_eq_some_iff] using hread
      exact .positive (readUnsigned_eq_some_iff.mp hcount)
  · intro hwrites
    unfold readInt?
    cases hwrites with
    | positive hcount =>
        rw [hcount.afterMinus?_eq_none, readUnsigned_eq_some_iff.mpr hcount]
        rfl
    | negative hdigits => simp [afterSign?, readDigits?_eq_some_iff.mpr hdigits]

theorem readValue?_eq_some_iff {value : Int64} :
    readValue? text = some value ↔ WritesInt text value.toInt := by
  rw [readValue?, Option.map_eq_some_iff]
  simp only [Option.filter_eq_some_iff, readInt?_eq_some_iff]
  constructor
  · rintro ⟨number, ⟨hwrites, hfits⟩, hvalue⟩
    obtain ⟨exact, rfl⟩ := fitsValue_iff.mp hfits
    rw [Int64.ofInt_toInt] at hvalue
    rwa [← hvalue]
  · intro hwrites
    exact ⟨value.toInt, ⟨hwrites, fitsValue_iff.mpr ⟨value, rfl⟩⟩, Int64.ofInt_toInt value⟩

end Reading

/-! ## The characters of numerals -/

/-- The character is no blank and neither a comma nor an equals sign. -/
def IsInner (c : Char) : Prop := isBlank c = false ∧ c ≠ ',' ∧ c ≠ '='

instance (c : Char) : Decidable (IsInner c) :=
  inferInstanceAs (Decidable (_ ∧ _))

theorem isInner_of_isDigit {c : Char} (hdigit : c.isDigit) : IsInner c := by
  have hrange : 48 ≤ c.toNat ∧ c.toNat ≤ 57 := by
    simpa [Char.isDigit, UInt32.le_iff_toNat_le] using hdigit
  refine ⟨?_, ?_, ?_⟩
  · simp only [isBlank, Bool.or_eq_false_iff, Bool.and_eq_false_iff, decide_eq_false_iff_not,
      beq_eq_false_iff_ne]
    omega
  · rintro rfl
    simp at hdigit
  · rintro rfl
    simp at hdigit

theorem WritesCount.isInner {numeral : List Char} {number : ℕ}
    (hcount : WritesCount numeral number) : ∀ c ∈ numeral, IsInner c := by
  cases hcount with
  | digits hdigits => exact fun c hmem => isInner_of_isDigit (hdigits.isDigit c hmem)
  | plus hdigits =>
      exact List.forall_mem_cons.mpr
        ⟨by decide, fun c hmem => isInner_of_isDigit (hdigits.isDigit c hmem)⟩

theorem WritesInt.isInner {numeral : List Char} {number : ℤ}
    (hwrites : WritesInt numeral number) : ∀ c ∈ numeral, IsInner c := by
  cases hwrites with
  | positive hcount => exact hcount.isInner
  | negative hdigits =>
      exact List.forall_mem_cons.mpr
        ⟨by decide, fun c hmem => isInner_of_isDigit (hdigits.isDigit c hmem)⟩

end NodeGrid.Text

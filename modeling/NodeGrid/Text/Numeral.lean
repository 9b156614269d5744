/-!
# Numerals

Decimal numerals of machine words.  A *count* is a number below `2 ^ 64`, a
*value* a signed word of 64 bits.  A numeral is an optional sign and at least
one digit, nothing else; counts admit no minus sign.

Written numerals have no plus sign and no leading zeros, and reading a written
numeral gives the number back.
-/

namespace NodeGrid.Text

/-- The number written by decimal digits, of which there must be at least one. -/
def readDigits? (text : List Char) : Option Nat :=
  if text ≠ [] ∧ text.all Char.isDigit then some (Nat.ofDigitChars 10 text 0) else none

/-- The text after a sign `sign`, if it starts with one. -/
def afterSign? (sign : Char) : List Char → Option (List Char)
  | [] => none
  | c :: rest => if c = sign then some rest else none

/-- Whether the number fits an unsigned word. -/
def fitsCount (number : Nat) : Bool :=
  number < UInt64.size

/-- Whether the number fits a signed word. -/
def fitsValue (number : Int) : Bool :=
  Int64.minValue.toInt ≤ number && number ≤ Int64.maxValue.toInt

/-- Reads a count. -/
def readCount? (text : List Char) : Option Nat :=
  (readDigits? ((afterSign? '+' text).getD text)).filter fitsCount

/-- Reads a number with an optional sign. -/
def readInt? (text : List Char) : Option Int :=
  match afterSign? '-' text with
  | some digits => (readDigits? digits).map fun number => -(number : Int)
  | none => (readDigits? ((afterSign? '+' text).getD text)).map fun number => (number : Int)

/-- Reads a value. -/
def readValue? (text : List Char) : Option Int64 :=
  ((readInt? text).filter fitsValue).map Int64.ofInt

/-- Writes a count. -/
def writeCount (number : Nat) : List Char :=
  Nat.toDigits 10 number

/-- Writes a number, with a minus sign if it is negative. -/
def writeInt : Int → List Char
  | .ofNat number => writeCount number
  | .negSucc number => '-' :: writeCount (number + 1)

/-- Writes a value. -/
def writeValue (value : Int64) : List Char :=
  writeInt value.toInt

/-! ## Written numerals are read back -/

theorem writeCount_ne_nil (number : Nat) : writeCount number ≠ [] :=
  Nat.toDigits_ne_nil

theorem isDigit_of_mem_writeCount {number : Nat} {c : Char} (hmem : c ∈ writeCount number) :
    c.isDigit :=
  Nat.isDigit_of_mem_toDigits (by decide) (by decide) hmem

theorem readDigits?_writeCount (number : Nat) :
    readDigits? (writeCount number) = some number := by
  have hall : (writeCount number).all Char.isDigit = true :=
    List.all_eq_true.mpr fun _ hmem => isDigit_of_mem_writeCount hmem
  simp only [readDigits?, hall, writeCount_ne_nil, ne_eq, not_false_eq_true, and_self, if_true]
  exact congrArg some (Nat.ofDigitChars_toDigits (by decide) (by decide))

/-- A written count starts with a digit, so with no sign. -/
theorem afterSign?_writeCount (sign : Char) (hsign : sign.isDigit = false) (number : Nat) :
    afterSign? sign (writeCount number) = none := by
  cases hdigits : writeCount number with
  | nil => rfl
  | cons c rest =>
    have hmem : c ∈ writeCount number := by simp [hdigits]
    have hdigit : c.isDigit := isDigit_of_mem_writeCount hmem
    have hne : c ≠ sign := by
      rintro rfl
      simp [hsign] at hdigit
    simp [afterSign?, hne]

theorem readCount?_writeCount {number : Nat} (hfits : number < UInt64.size) :
    readCount? (writeCount number) = some number := by
  simp only [readCount?, afterSign?_writeCount '+' (by decide), Option.getD_none,
    readDigits?_writeCount]
  have hfitsCount : fitsCount number = true := decide_eq_true hfits
  simp [Option.filter, hfitsCount]

theorem readInt?_writeInt (number : Int) : readInt? (writeInt number) = some number := by
  cases number with
  | ofNat magnitude =>
    simp only [readInt?, writeInt, afterSign?_writeCount '-' (by decide),
      afterSign?_writeCount '+' (by decide), Option.getD_none, readDigits?_writeCount]
    rfl
  | negSucc magnitude =>
    simp only [readInt?, writeInt, afterSign?, if_true, readDigits?_writeCount]
    rfl

theorem readValue?_writeValue (value : Int64) : readValue? (writeValue value) = some value := by
  have hfits : fitsValue value.toInt = true := by
    have hlow := value.le_toInt
    have hhigh := value.toInt_lt
    simp only [fitsValue, Int64.toInt_minValue, Int64.toInt_maxValue, Bool.and_eq_true,
      decide_eq_true_eq]
    omega
  simp [readValue?, writeValue, readInt?_writeInt, Option.filter, hfits]

end NodeGrid.Text

import NodeGrid.Text.Numeral

/-!
# Rounded quotients

Quotients of natural numbers rounded to nearest, with ties to the even
neighbour, onto two kinds of grid: the binary grid of 53 significant digits, on
which shares are computed, and the decimal grid with a fixed number of places,
on which they are shown.
-/

namespace NodeGrid.Decimal

/-- The integer nearest to `numerator / denominator`; of two that are equally
near, the even one. -/
def roundedQuotient (numerator denominator : Nat) : Nat :=
  let quotient := numerator / denominator
  let twiceRest := 2 * (numerator % denominator)
  if twiceRest < denominator ∨ (twiceRest = denominator ∧ quotient % 2 = 0) then
    quotient
  else
    quotient + 1

/-- The number `significand / 2 ^ places`. -/
structure Binary where
  significand : Nat
  places : Nat
deriving DecidableEq

namespace Binary

/-- How many binary places the quotient needs for 53 significant digits.  The
quotient must be positive and at most one. -/
def placesFor (numerator denominator : Nat) : Nat :=
  let places := 52 + denominator.log2 - numerator.log2
  if numerator * Nat.pow 2 places < denominator * Nat.pow 2 52 then places + 1 else places

/-- The number of 53 significant digits that is nearest to a quotient that is
at most one. -/
def ofQuotient (numerator denominator : Nat) : Binary :=
  if numerator = 0 then
    ⟨0, 0⟩
  else
    let places := placesFor numerator denominator
    ⟨roundedQuotient (numerator * Nat.pow 2 places) denominator, places⟩

/-- The number of 53 significant digits that is nearest to what is missing from
`number` to one. -/
def complement (number : Binary) : Binary :=
  ofQuotient (Nat.pow 2 number.places - number.significand) (Nat.pow 2 number.places)

end Binary

/-- Writes `digits` with leading zeros, at least `width` digits. -/
def padded (width number : Nat) : List Char :=
  let digits := Text.writeCount number
  List.replicate (width - digits.length) '0' ++ digits

/-- Writes a number with the given count of decimal places. -/
def writeFixed (decimals : Nat) (number : Binary) : List Char :=
  let unit := Nat.pow 10 decimals
  let scaled := roundedQuotient (number.significand * unit) (Nat.pow 2 number.places)
  Text.writeCount (scaled / unit) ++ '.' :: padded decimals (scaled % unit)

end NodeGrid.Decimal

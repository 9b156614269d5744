import NodeGrid.Assembly.Word

/-!
# Tokens

The units of a source line.  A line is cut into tokens from left to right, and
each token takes as many characters as it can.  Blanks separate tokens but are
not needed between them, and a `#` starts a comment that runs to the end of the
line.
-/

namespace NodeGrid.Assembly

/-- What a line is made of. -/
inductive Token where
  | word (spelled : Word)
  /-- Decimal digits, with a minus sign in front or without. -/
  | number (numeral : List Char)
  | colon
  | comma
deriving DecidableEq

namespace Token

/-- The characters of the token. -/
def written : Token → List Char
  | .word spelled => spelled.letters
  | .number numeral => numeral
  | .colon => [':']
  | .comma => [',']

/-- Whether the character only separates tokens. -/
def isGap (c : Char) : Bool :=
  c == ' ' || c == '\t' || c == '\r' || c == '\x0c'

/-- Whether the character can continue a word. -/
def continuesWord (c : Char) : Bool :=
  c.isUpper || c.isDigit

/-- Whether the text starts with a digit. -/
def startsWithDigit (text : List Char) : Bool :=
  text.head?.any Char.isDigit

/-- The tokens of a line, or the first character that starts none. -/
def scan : List Char → Except Char (List Token)
  | [] => .ok []
  | c :: rest =>
    if isGap c then
      scan rest
    else if c = '#' then
      .ok []
    else if c = ':' then do
      return .colon :: (← scan rest)
    else if c = ',' then do
      return .comma :: (← scan rest)
    else if c.isUpper then do
      let word := Word.ofLetters (c :: rest.takeWhile continuesWord)
      return .word word :: (← scan (rest.dropWhile continuesWord))
    else if c.isDigit || (c == '-' && startsWithDigit rest) then do
      let numeral := c :: rest.takeWhile Char.isDigit
      return .number numeral :: (← scan (rest.dropWhile Char.isDigit))
    else
      .error c
termination_by line => line.length
decreasing_by
  all_goals
    simp only [List.length_cons]
    first
      | omega
      | exact Nat.lt_succ_of_le (List.dropWhile_suffix _).length_le

end Token

end NodeGrid.Assembly

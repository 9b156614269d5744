import NodeGrid.Text.Uppercase.Table

/-!
# Upper case

The upper-case form of a text is the upper-case forms of its characters one
after the other.  The form of a single character may have several characters
(`ß` becomes `SS`), and no character is treated differently for the sake of
its neighbours.
-/

namespace NodeGrid.Text.Uppercase

/-- The upper-case form of an ASCII character. -/
def ofAscii (c : Char) : Char :=
  if 'a' ≤ c ∧ c ≤ 'z' then Char.ofNat (c.toNat - 32) else c

/-- The upper-case form of a character beyond ASCII. -/
def ofNonAscii (c : Char) : List Char :=
  match stretches.find? (·.contains c.toNat) with
  | some stretch => [Char.ofNat (c.toNat + stretch.shift).toNat]
  | none =>
    match expansions.find? (·.1 == c.toNat) with
    | some (_, form) => form.map Char.ofNat
    | none => [c]

/-- The upper-case form of a character. -/
def ofChar (c : Char) : List Char :=
  if c.toNat < 128 then [ofAscii c] else ofNonAscii c

/-- The upper-case form of a text. -/
def ofText (text : List Char) : List Char :=
  text.flatMap ofChar

@[simp] theorem ofText_nil : ofText [] = [] := rfl

@[simp] theorem ofText_cons (c : Char) (text : List Char) :
    ofText (c :: text) = ofChar c ++ ofText text := rfl

@[simp] theorem ofText_append (first second : List Char) :
    ofText (first ++ second) = ofText first ++ ofText second :=
  List.flatMap_append

end NodeGrid.Text.Uppercase

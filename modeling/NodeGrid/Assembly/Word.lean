import NodeGrid.Instruction

/-!
# Words

A word is a letter followed by letters and digits.  Some words are reserved:
the names of operations and of registers.  Every other word is a name that
somebody chose for a label.  The names of operations may serve as labels too;
the names of registers may not.
-/

namespace NodeGrid.Assembly

/-- A word by what it stands for. -/
inductive Word where
  | plain (operation : Plain)
  | unary (operation : Unary)
  | move
  | jump (condition : Condition)
  | register (named : Register)
  /-- A word that is not reserved. -/
  | name (letters : List Char)
deriving DecidableEq

namespace Word

/-- The words with a meaning of their own. -/
def reserved : List Word :=
  [.plain .nop, .plain .neg, .plain .sav, .plain .swp, .unary .add, .unary .sub, .unary .jro,
    .move] ++ Condition.all.map .jump ++ Register.all.map .register

/-- The letters of the word. -/
def letters : Word → List Char
  | .plain operation => operation.name.toList
  | .unary operation => operation.name.toList
  | .move => moveName.toList
  | .jump condition => condition.name.toList
  | .register named => named.name.toList
  | .name letters => letters

/-- The word with the given letters. -/
def ofLetters (letters : List Char) : Word :=
  (reserved.find? fun word => word.letters == letters).getD (.name letters)

/-- The label that the word stands for where a label is expected. -/
def label? : Word → Option (List Char)
  | .register _ => none
  | word => some word.letters

/-- The spellings of reserved words are told apart by their letters. -/
theorem ofLetters_letters {word : Word} (hreserved : word ∈ reserved) :
    ofLetters word.letters = word := by
  revert word
  decide

theorem letters_ofLetters (spelling : List Char) : (ofLetters spelling).letters = spelling := by
  unfold ofLetters
  cases hfind : reserved.find? fun word => word.letters == spelling with
  | none => rfl
  | some word =>
    have hletters := List.find?_some hfind
    simpa using hletters

end Word

end NodeGrid.Assembly

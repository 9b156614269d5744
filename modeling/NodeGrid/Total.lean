/-!
# Totals over lists

The sum of a quantity over a list, and how it changes when one entry does.
The measures by which loops of this library end are such totals.
-/

namespace NodeGrid

variable {α : Type}

/-- The sum of `f` over the list. -/
def total (f : α → Nat) (list : List α) : Nat :=
  list.foldr (fun entry rest => f entry + rest) 0

@[simp] theorem total_nil (f : α → Nat) : total f [] = 0 := rfl

@[simp] theorem total_cons (f : α → Nat) (first : α) (rest : List α) :
    total f (first :: rest) = f first + total f rest := rfl

/-- A new entry counts in place of the old one. -/
theorem total_set (f : α → Nat) {list : List α} {index : Nat} (hindex : index < list.length)
    (entry : α) :
    total f (list.set index entry) + f list[index] = total f list + f entry := by
  induction list generalizing index with
  | nil => simp at hindex
  | cons first rest ih =>
    cases index with
    | zero =>
      simp only [List.set_cons_zero, total_cons, List.getElem_cons_zero]
      omega
    | succ index =>
      have := ih (by simpa using hindex)
      simp only [List.set_cons_succ, total_cons, List.getElem_cons_succ]
      omega

/-- A removed entry counts no more. -/
theorem total_eraseIdx (f : α → Nat) {list : List α} {index : Nat}
    (hindex : index < list.length) :
    total f (list.eraseIdx index) + f list[index] = total f list := by
  induction list generalizing index with
  | nil => simp at hindex
  | cons first rest ih =>
    cases index with
    | zero => simp [Nat.add_comm]
    | succ index =>
      have := ih (by simpa using hindex)
      simp only [List.eraseIdx_cons_succ, total_cons, List.getElem_cons_succ]
      omega

end NodeGrid

import NodeGrid.Fault
import Mathlib.Data.List.Forall2

/-!
# Operations that do not fault, or fault alike

`Yields result post` says that an operation has come to its end without a fault,
and what holds of the value it has returned.  A sequence of operations is taken
apart with `Yields.bind` when it is to be shown to succeed, and with `bind_eq_ok`
when it is known to have.

`SameEnd related result other` compares two operations that may fault: either both
have returned related values, or the same fault.
-/

namespace NodeGrid

variable {ε α β : Type}

@[simp] theorem ok_bind (value : α) (next : α → Except ε β) :
    (Except.ok value : Except ε α) >>= next = next value := rfl

/-- What an operation has returned can be found by comparison. -/
theorem eq_ok_of_beq [BEq α] [LawfulBEq α] {result : Except ε α} {value : α}
    (hsame : (result.toOption == some value) = true) : result = .ok value := by
  cases result with
  | error broken => cases hsame
  | ok found => exact congrArg Except.ok (eq_of_beq hsame)

/-- That an operation returns, and what it returns, can be checked at once. -/
theorem exists_ok_of_any {result : Except ε α} {check : α → Bool}
    (hany : result.toOption.any check = true) : ∃ value, result = .ok value ∧ check value = true := by
  cases result with
  | error broken => cases hany
  | ok value => exact ⟨value, rfl, hany⟩

/-- A sequence has succeeded exactly when both of its parts have. -/
theorem bind_eq_ok {result : Except ε α} {next : α → Except ε β} {outcome : β} :
    result >>= next = .ok outcome ↔
      ∃ value, result = .ok value ∧ next value = .ok outcome := by
  cases result with
  | error broken => simp [bind, Except.bind]
  | ok value => simp

/-- A sequence has failed exactly when its first part has, or its second part after it. -/
theorem bind_eq_error {result : Except ε α} {next : α → Except ε β} {broken : ε} :
    result >>= next = .error broken ↔
      result = .error broken ∨ ∃ value, result = .ok value ∧ next value = .error broken := by
  cases result with
  | error other => simp [bind, Except.bind]
  | ok value => simp

/-- The errors of a sequence may be renamed in each of its parts. -/
theorem mapError_bind {δ : Type} (result : Except ε α) (next : α → Except ε β) (wrap : ε → δ) :
    (result >>= next).mapError wrap =
      result.mapError wrap >>= fun value => (next value).mapError wrap := by
  cases result <;> rfl

/-- What is done with the value of a sequence can be done with that of its second part. -/
theorem map_bind {γ : Type} (result : Except ε α) (next : α → Except ε β) (f : β → γ) :
    (result >>= next).map f = result >>= fun value => (next value).map f := by
  cases result <;> rfl

/-- An operation after a check has succeeded exactly when the check has passed. -/
theorem ite_error_eq_ok {check : Prop} [Decidable check] {broken : ε} {result : Except ε α}
    {outcome : α} :
    (if check then .error broken else result) = .ok outcome ↔ ¬ check ∧ result = .ok outcome := by
  split <;> simp [*]

/-- An operation on every entry of a list has succeeded exactly when each one has. -/
theorem mapM_eq_ok_iff {f : α → Except ε β} {list : List α} {results : List β} :
    list.mapM f = .ok results ↔ List.Forall₂ (fun a b => f a = .ok b) list results := by
  induction list generalizing results with
  | nil => exact ⟨fun h => by cases h; exact .nil, fun h => by cases h; rfl⟩
  | cons first rest ih =>
      rw [List.mapM_cons, List.forall₂_cons_left_iff]
      constructor
      · intro hmap
        obtain ⟨b, hb, hrest⟩ := bind_eq_ok.mp hmap
        obtain ⟨others, hothers, hpair⟩ := bind_eq_ok.mp hrest
        cases hpair
        exact ⟨b, others, hb, ih.mp hothers, rfl⟩
      · rintro ⟨b, others, hb, hothers, rfl⟩
        rw [hb, ok_bind, ih.mpr hothers]
        rfl

theorem exists_mapM_eq_ok_iff {f : α → Except ε β} {list : List α} :
    (∃ results, list.mapM f = .ok results) ↔ ∀ a ∈ list, ∃ b, f a = .ok b := by
  induction list with
  | nil => exact ⟨fun _ => by simp, fun _ => ⟨[], rfl⟩⟩
  | cons first rest ih =>
      rw [List.mapM_cons, List.forall_mem_cons, ← ih]
      simp only [bind_eq_ok]
      constructor
      · rintro ⟨results, b, hb, others, hothers, -⟩
        exact ⟨⟨b, hb⟩, others, hothers⟩
      · rintro ⟨⟨b, hb⟩, others, hothers⟩
        exact ⟨b :: others, b, hb, others, hothers, rfl⟩

/-- It has failed exactly when it has on one entry, after it has succeeded on those
before. -/
theorem mapM_eq_error_iff {f : α → Except ε β} {list : List α} {broken : ε} :
    list.mapM f = .error broken ↔ ∃ earlier entry later, list = earlier ++ entry :: later ∧
      (∀ a ∈ earlier, ∃ b, f a = .ok b) ∧ f entry = .error broken := by
  induction list with
  | nil => simp [pure, Except.pure]
  | cons first rest ih =>
      rw [List.mapM_cons, bind_eq_error]
      constructor
      · rintro (hfirst | ⟨b, hb, hrest⟩)
        · exact ⟨[], first, rest, rfl, by simp, hfirst⟩
        · rcases bind_eq_error.mp hrest with hbroken | ⟨others, -, hreturn⟩
          · obtain ⟨earlier, entry, later, rfl, hearlier, hentry⟩ := ih.mp hbroken
            exact ⟨first :: earlier, entry, later, rfl,
              List.forall_mem_cons.mpr ⟨⟨b, hb⟩, hearlier⟩, hentry⟩
          · cases hreturn
      · -- the one that fails is the first of the list, or comes after it
        rintro ⟨_ | ⟨a, earlier⟩, entry, later, hlist, hearlier, hentry⟩
        · cases hlist
          exact Or.inl hentry
        · cases hlist
          obtain ⟨⟨b, hb⟩, hothers⟩ := List.forall_mem_cons.mp hearlier
          exact Or.inr ⟨b, hb, bind_eq_error.mpr
            (Or.inl (ih.mpr ⟨earlier, entry, later, rfl, hothers, hentry⟩))⟩

/-- The operation did not fault, and `post` holds of what it returned. -/
def Yields (result : Except Fault α) (post : α → Prop) : Prop :=
  ∃ outcome, result = .ok outcome ∧ post outcome

variable {result : Except Fault α} {post mid : α → Prop}

theorem yields_ok {outcome : α} : Yields (.ok outcome) post ↔ post outcome :=
  ⟨fun ⟨_, heq, hpost⟩ => Except.ok.inj heq ▸ hpost, fun hpost => ⟨outcome, rfl, hpost⟩⟩

/-- What an operation yields holds of the value that it has returned. -/
theorem Yields.of_ok (hyields : Yields result post) {outcome : α} (hok : result = .ok outcome) :
    post outcome :=
  yields_ok.mp (hok ▸ hyields)

theorem Yields.ne_error (hyields : Yields result post) (broken : Fault) : result ≠ .error broken := by
  obtain ⟨outcome, rfl, -⟩ := hyields
  simp

theorem Yields.mono (hyields : Yields result mid) (himp : ∀ outcome, mid outcome → post outcome) :
    Yields result post := by
  obtain ⟨outcome, hok, hmid⟩ := hyields
  exact ⟨outcome, hok, himp outcome hmid⟩

/-- What the first operation returns has to be good enough for the second. -/
theorem Yields.bind {next : α → Except Fault β} {post : β → Prop} (hfirst : Yields result mid)
    (hnext : ∀ outcome, mid outcome → Yields (next outcome) post) :
    Yields (result >>= next) post := by
  obtain ⟨outcome, rfl, hmid⟩ := hfirst
  exact hnext outcome hmid

/-! ## Two operations -/

/-- Two operations have returned related values, or the same fault. -/
inductive SameEnd {α β : Type} (related : α → β → Prop) :
    Except Fault α → Except Fault β → Prop where
  | ok {value : α} {other : β} (hrelated : related value other) :
      SameEnd related (.ok value) (.ok other)
  | error (broken : Fault) : SameEnd related (.error broken) (.error broken)

namespace SameEnd

variable {γ δ : Type} {related : α → β → Prop} {later : γ → δ → Prop}

/-- The two ends that there are. -/
theorem exists_of {result : Except Fault α} {other : Except Fault β}
    (hsame : SameEnd related result other) :
    (∃ value late, result = .ok value ∧ other = .ok late ∧ related value late) ∨
      ∃ broken, result = .error broken ∧ other = .error broken := by
  cases hsame with
  | ok hrelated => exact Or.inl ⟨_, _, rfl, rfl, hrelated⟩
  | error broken => exact Or.inr ⟨broken, rfl, rfl⟩

theorem mono {result : Except Fault α} {other : Except Fault β} {weaker : α → β → Prop}
    (hsame : SameEnd related result other)
    (himp : ∀ value late, related value late → weaker value late) : SameEnd weaker result other := by
  cases hsame with
  | ok hrelated => exact .ok (himp _ _ hrelated)
  | error broken => exact .error broken

theorem bind {result : Except Fault α} {other : Except Fault β} {next : α → Except Fault γ}
    {nextOther : β → Except Fault δ} (hfirst : SameEnd related result other)
    (hnext : ∀ value otherValue, related value otherValue →
      SameEnd later (next value) (nextOther otherValue)) :
    SameEnd later (result >>= next) (other >>= nextOther) := by
  cases hfirst with
  | ok hrelated => exact hnext _ _ hrelated
  | error broken => exact .error broken

/-- One operation, and what is done with its value on either side. -/
theorem bind_same {result : Except Fault α} {next : α → Except Fault γ}
    {nextOther : α → Except Fault δ}
    (hnext : ∀ value, SameEnd later (next value) (nextOther value)) :
    SameEnd later (result >>= next) (result >>= nextOther) := by
  cases result with
  | error broken => exact .error broken
  | ok value => exact hnext value

end SameEnd

end NodeGrid

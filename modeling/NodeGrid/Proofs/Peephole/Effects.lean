import NodeGrid.Peephole
import NodeGrid.Proofs.Peephole.Simulation

/-!
# What the rules do to effects

A rule for one instruction leaves its effect as it is (`effect_of_simplify?`,
`computes_of_isIdle`).  A rule for a pair leaves alone what the two instructions
compute one after the other (`computes_of_ofPair?_eq_merge`,
`computes_of_ofPair?_eq_removeBoth`), but not what the first of them computes.
-/

namespace NodeGrid

namespace Instruction

/-- The instruction goes on to its successor and does nothing but compute new
data. -/
def Computes (instruction : Instruction) (compute : Data → Data) : Prop :=
  ∀ ip data, instruction.effect ip data = ⟨[], compute data, none⟩

theorem computes_plain (operation : Plain) : Computes (.plain operation) operation.effect :=
  fun _ _ => rfl

/-! ## Effects and positions -/

/-- Only a relative jump looks at its own position. -/
theorem effect_eq_of_absolute {instruction : Instruction}
    (habsolute : instruction.isRelativeJump = false) (ip other : ℕ) (data : Data) :
    instruction.effect ip data = instruction.effect other data := by
  cases instruction with
  | plain operation => rfl
  | unary operation source =>
      cases operation with
      | add => rfl
      | sub => rfl
      | jro => cases habsolute
  | move source target => rfl
  | jump condition target => rfl

/-- An instruction that is no relative jump jumps to its target, or not at all. -/
theorem jumpTarget?_of_effect {instruction : Instruction}
    (habsolute : instruction.isRelativeJump = false) {ip target : ℕ} {data : Data}
    (heffect : (instruction.effect ip data).target = some target) :
    instruction.jumpTarget? = some target := by
  cases instruction with
  | plain operation => cases heffect
  | unary operation source =>
      cases operation with
      | add => cases heffect
      | sub => cases heffect
      | jro => cases habsolute
  | move source register => cases heffect
  | jump condition destination =>
      have hjump : (if condition.holds data.acc then some destination else none) = some target :=
        heffect
      split at hjump
      · exact hjump
      · cases hjump

theorem effect_mapTarget {instruction : Instruction}
    (habsolute : instruction.isRelativeJump = false) (f : ℕ → ℕ) (ip : ℕ) (data : Data) :
    (instruction.mapTarget f).effect ip data =
      { instruction.effect ip data with target := (instruction.effect ip data).target.map f } := by
  cases instruction with
  | plain operation => rfl
  | unary operation source =>
      cases operation with
      | add => rfl
      | sub => rfl
      | jro => cases habsolute
  | move source target => rfl
  | jump condition target =>
      simp only [mapTarget, effect]
      split <;> rfl

theorem isRelativeJump_mapTarget (f : ℕ → ℕ) (instruction : Instruction) :
    (instruction.mapTarget f).isRelativeJump = instruction.isRelativeJump := by
  cases instruction <;> rfl

theorem jumpTarget?_mapTarget (f : ℕ → ℕ) (instruction : Instruction) :
    (instruction.mapTarget f).jumpTarget? = instruction.jumpTarget?.map f := by
  cases instruction <;> rfl

/-! ## Rules for one instruction -/

theorem effect_of_simplify? {instruction simpler : Instruction}
    (hsimplify : instruction.simplify? = some simpler) (ip : ℕ) (data : Data) :
    simpler.effect ip data = instruction.effect ip data := by
  unfold simplify? at hsimplify
  split at hsimplify
  · cases hsimplify
    simp only [effect, Operand.effect, Operand.fetch, use, Int64.sub_eq_add_neg]
  · cases hsimplify
    simp [effect, Operand.effect, Operand.fetch, use, clear, Register.store]
  · cases hsimplify
    rfl
  · cases hsimplify

theorem isRelativeJump_of_simplify? {instruction simpler : Instruction}
    (hsimplify : instruction.simplify? = some simpler) :
    simpler.isRelativeJump = false ∧ simpler.jumpTarget? = none := by
  unfold simplify? at hsimplify
  split at hsimplify <;> cases hsimplify <;> exact ⟨rfl, rfl⟩

theorem computes_of_isIdle {instruction : Instruction} (hidle : instruction.isIdle = true) :
    instruction.Computes id := by
  unfold isIdle at hidle
  split at hidle
  · exact fun _ _ => rfl
  · exact fun _ _ => rfl
  · exact fun _ _ => rfl
  · cases hidle

/-- The two instructions compute new data one after the other. -/
def PairComputes (first second : Instruction) (compute : Data → Data) : Prop :=
  ∃ before after, first.Computes before ∧ second.Computes after ∧
    ∀ data, after (before data) = compute data

end Instruction

/-! ## Rules for two instructions -/

namespace Reduction

open Instruction

variable {first second merged : Instruction}

theorem computes_of_ofPair?_eq_merge (hpair : ofPair? first second = some (.merge merged)) :
    ∃ compute, PairComputes first second compute ∧ merged.Computes compute := by
  unfold ofPair? at hpair
  split at hpair
  · rename_i left right
    cases hpair
    refine ⟨fun data => { data with acc := data.acc + (left + right) },
      ⟨_, _, fun _ _ => rfl, fun _ _ => rfl, fun data => ?_⟩, fun _ _ => rfl⟩
    simp only [Int64.add_assoc]
  · rename_i right
    cases hpair
    exact ⟨fun data => { data with acc := right },
      ⟨_, _, fun _ _ => rfl, fun _ _ => rfl, fun _ => rfl⟩, fun _ _ => rfl⟩
  · cases hpair
  · cases hpair
  · cases hpair

theorem computes_of_ofPair?_eq_removeBoth (hpair : ofPair? first second = some .removeBoth) :
    PairComputes first second id := by
  unfold ofPair? at hpair
  split at hpair
  · cases hpair
  · cases hpair
  · exact ⟨_, _, computes_plain .swp, computes_plain .swp, fun _ => rfl⟩
  · refine ⟨_, _, computes_plain .neg, computes_plain .neg, fun data => ?_⟩
    simp [Plain.effect]
  · cases hpair

theorem isRelativeJump_of_ofPair?_eq_merge
    (hpair : ofPair? first second = some (.merge merged)) :
    merged.isRelativeJump = false ∧ merged.jumpTarget? = none := by
  unfold ofPair? at hpair
  split at hpair <;> cases hpair <;> exact ⟨rfl, rfl⟩

end Reduction

end NodeGrid

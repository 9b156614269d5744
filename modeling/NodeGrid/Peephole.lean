import NodeGrid.Instruction
import NodeGrid.Total

/-!
# Peephole optimisation

The rules of the optimiser look at one instruction, or at two that follow each
other.  A sweep goes through a program from its start, applies rules at one
position as long as any matches there, and then goes on to the next.  The
optimiser sweeps until a sweep finds nothing to do.

No rule touches an instruction that reads or writes a port, because the
neighbour behind the port would notice.  The rules for pairs do not apply where
a jump leads into the pair.  Nothing may move in a program that jumps relative
to its own position, so there only the rules that replace a single instruction
remain.

Every reduction lowers the *weight* of the program (`weight_apply_lt`), which is
why a sweep ends and why there are only finitely many of them.  What is kept by every
reduction is kept by all sweeps (`Reduction.Keeps.sweepAll`).
-/

namespace NodeGrid

/-! ## Rules for one instruction -/

namespace Instruction

/-- Sets the accumulator to zero. -/
def clear : Instruction := .move (.immediate 0) .acc

/-- The plainer instruction that does the same, if there is one. -/
def simplify? : Instruction → Option Instruction
  | .unary .sub (.immediate value) => some (.unary .add (.immediate (-value)))
  | .unary .sub (.register .acc) => some clear
  | .move (.register .nil) .acc => some clear
  | _ => none

/-- Whether the instruction changes nothing. -/
def isIdle : Instruction → Bool
  | .move (.register .nil) .nil => true
  | .move (.register .acc) .nil => true
  | .move (.register .acc) .acc => true
  | _ => false

/-- Changes where a jump leads. -/
def mapTarget (f : Nat → Nat) : Instruction → Instruction
  | .jump condition target => .jump condition (f target)
  | instruction => instruction

/-- How many reductions the instruction can take part in before it is gone. -/
def weight (instruction : Instruction) : Nat :=
  if instruction.simplify?.isSome then 2 else 1

end Instruction

/-! ## Programs -/

namespace Program

/-- The weights of all instructions together. -/
def weight (code : Program) : Nat :=
  total Instruction.weight code

/-- Whether some jump leads to the position. -/
def isTarget (code : Program) (position : Nat) : Bool :=
  code.any fun instruction => instruction.jumpTarget? == some position

/-- Removes the instruction at `position`.  Jumps keep leading to the same
instructions; a jump to the removed one leads to its successor, which for the
last instruction is the first. -/
def delete (code : Program) (position : Nat) : Program :=
  let rest := code.eraseIdx position
  rest.map (Instruction.mapTarget fun target =>
    (if position < target then target - 1 else target) % rest.length)

/-- Lets every jump lead to a position of the program. -/
def wrapTargets (code : Program) : Program :=
  code.map (Instruction.mapTarget fun target => target % code.length)

end Program

/-! ## Windows -/

/-- What happens to a window. -/
inductive Reduction where
  /-- Replaces the first instruction. -/
  | replace (instruction : Instruction)
  /-- Removes the first instruction. -/
  | remove
  /-- Replaces both instructions by one. -/
  | merge (instruction : Instruction)
  /-- Removes both instructions. -/
  | removeBoth
deriving BEq, ReflBEq, LawfulBEq

namespace Reduction

/-- The rules for two instructions that always run one after the other. -/
def ofPair? : Instruction → Instruction → Option Reduction
  | .unary .add (.immediate first), .unary .add (.immediate second) =>
    some (.merge (.unary .add (.immediate (first + second))))
  | .move (.immediate _) .acc, .move (.immediate second) .acc =>
    some (.merge (.move (.immediate second) .acc))
  | .plain .swp, .plain .swp => some .removeBoth
  | .plain .neg, .plain .neg => some .removeBoth
  | _, _ => none

/-- Two instructions are merged, or both removed. -/
theorem eq_merge_or_removeBoth_of_ofPair? {first second : Instruction} {reduction : Reduction}
    (hpair : ofPair? first second = some reduction) :
    (∃ merged, reduction = .merge merged) ∨ reduction = .removeBoth := by
  unfold ofPair? at hpair
  split at hpair <;> cases hpair
  · exact .inl ⟨_, rfl⟩
  · exact .inl ⟨_, rfl⟩
  · exact .inr rfl
  · exact .inr rfl

/-- The reduction of the window at `position`, if a rule matches.  The rules that
move code apply only where code is relocatable. -/
def at? (relocatable : Bool) (code : Program) (position : Nat) : Option Reduction :=
  match code[position]? with
  | none => none
  | some first =>
    match first.simplify? with
    | some simpler => some (.replace simpler)
    | none =>
      if !relocatable then none
      else if first.isIdle then some .remove
      else
        match code[position + 1]? with
        | none => none
        | some second => if code.isTarget (position + 1) then none else ofPair? first second

/-- The rules and the windows that they reduce. -/
inductive Matches (relocatable : Bool) (code : Program) (position : Nat) : Reduction → Prop where
  | simplify {first simpler : Instruction} (hfirst : code[position]? = some first)
      (hsimplify : first.simplify? = some simpler) :
      Matches relocatable code position (.replace simpler)
  | idle {first : Instruction} (hrelocatable : relocatable = true)
      (hfirst : code[position]? = some first) (hidle : first.isIdle = true) :
      Matches relocatable code position .remove
  | pair {first second : Instruction} {reduction : Reduction} (hrelocatable : relocatable = true)
      (hfirst : code[position]? = some first) (hsecond : code[position + 1]? = some second)
      (huntargeted : code.isTarget (position + 1) = false)
      (hpair : ofPair? first second = some reduction) :
      Matches relocatable code position reduction

/-- The reduction that is found is one by a rule. -/
theorem matches_of_at? {relocatable : Bool} {code : Program} {position : Nat}
    {reduction : Reduction} (hat : at? relocatable code position = some reduction) :
    Matches relocatable code position reduction := by
  unfold at? at hat
  split at hat
  · cases hat
  · rename_i first hfirst
    split at hat
    · rename_i simpler hsimplify
      cases hat
      exact .simplify hfirst hsimplify
    · -- only a program that can be moved may get shorter
      cases relocatable with
      | false => cases hat
      | true =>
        simp only [Bool.not_true, Bool.false_eq_true, if_false] at hat
        split at hat
        · rename_i hidle
          cases hat
          exact .idle rfl hfirst hidle
        · split at hat
          · cases hat
          · rename_i second hsecond
            split at hat
            · cases hat
            · rename_i htarget
              exact .pair rfl hfirst hsecond (Bool.eq_false_iff.mpr htarget) hat

/-- Nothing is found only where no rule matches. -/
theorem not_matches_of_at? {relocatable : Bool} {code : Program} {position : Nat}
    (hat : at? relocatable code position = none) (reduction : Reduction) :
    ¬ Matches relocatable code position reduction := by
  intro hmatches
  cases hmatches with
  | simplify hfirst hsimplify => simp [at?, hfirst, hsimplify] at hat
  | @idle first hrelocatable hfirst hidle =>
    cases hsimplify : first.simplify? <;> simp [at?, hfirst, hsimplify, hrelocatable, hidle] at hat
  | @pair first second _ hrelocatable hfirst hsecond huntargeted hpair =>
    cases hsimplify : first.simplify? with
    | some simpler => simp [at?, hfirst, hsimplify] at hat
    | none =>
      cases hidle : first.isIdle <;>
        simp [at?, hfirst, hsimplify, hrelocatable, hidle, hsecond, huntargeted, hpair] at hat

/-- The program with the window at `position` reduced. -/
def apply (code : Program) (position : Nat) : Reduction → Program
  | .replace instruction => code.set position instruction
  | .remove => code.delete position
  | .merge instruction => Program.delete (code.set position instruction) (position + 1)
  | .removeBoth => (code.delete (position + 1)).delete position

end Reduction

/-! ## Every reduction lowers the weight -/

namespace Instruction

theorem weight_pos (instruction : Instruction) : 0 < instruction.weight := by
  unfold weight
  split <;> decide

/-- A simplified instruction cannot be simplified again. -/
theorem simplify?_eq_none_of_simplify? {instruction simpler : Instruction}
    (hsimplify : instruction.simplify? = some simpler) : simpler.simplify? = none := by
  unfold simplify? at hsimplify
  split at hsimplify <;> cases hsimplify <;> rfl

theorem weight_simplify? {instruction simpler : Instruction}
    (hsimplify : instruction.simplify? = some simpler) :
    simpler.weight + 1 = instruction.weight := by
  simp [weight, hsimplify, simplify?_eq_none_of_simplify? hsimplify]

@[simp] theorem weight_mapTarget (f : Nat → Nat) (instruction : Instruction) :
    (instruction.mapTarget f).weight = instruction.weight := by
  cases instruction <;> rfl

end Instruction

namespace Program

theorem weight_map_mapTarget (f : Nat → Nat) (code : Program) :
    weight (code.map (Instruction.mapTarget f)) = code.weight := by
  induction code with
  | nil => rfl
  | cons first rest ih =>
    simp only [weight, List.map_cons, total_cons, Instruction.weight_mapTarget] at ih ⊢
    rw [ih]

theorem weight_delete {code : Program} {position : Nat} (hposition : position < code.length) :
    (code.delete position).weight + code[position].weight = code.weight := by
  simp only [delete, weight_map_mapTarget]
  exact total_eraseIdx Instruction.weight hposition

theorem length_delete_le (code : Program) (position : Nat) :
    (code.delete position).length ≤ code.length := by
  simp only [delete, List.length_map]
  exact List.length_eraseIdx_le code position

theorem length_delete {code : Program} {position : Nat} (hposition : position < code.length) :
    (code.delete position).length + 1 = code.length := by
  simp only [delete, List.length_map, List.length_eraseIdx_of_lt hposition]
  omega

end Program

namespace Reduction

/-- What a pair is merged into cannot be simplified. -/
theorem weight_of_ofPair?_eq_merge {first second merged : Instruction}
    (hpair : ofPair? first second = some (.merge merged)) : merged.weight = 1 := by
  unfold ofPair? at hpair
  split at hpair <;> cases hpair <;> rfl

theorem length_apply_le (code : Program) (position : Nat) (reduction : Reduction) :
    (reduction.apply code position).length ≤ code.length := by
  cases reduction with
  | replace instruction => simp [apply]
  | remove => exact Program.length_delete_le code position
  | merge instruction =>
    have := Program.length_delete_le (code.set position instruction) (position + 1)
    simpa [apply] using this
  | removeBoth =>
    exact Nat.le_trans (Program.length_delete_le _ position)
      (Program.length_delete_le code (position + 1))

/-- Every reduction lowers the weight. -/
theorem weight_apply_lt {relocatable : Bool} {code : Program} {position : Nat}
    {reduction : Reduction}
    (hat : at? relocatable code position = some reduction) :
    (reduction.apply code position).weight < code.weight := by
  cases matches_of_at? hat with
  | @simplify first simpler hfirst hsimplify =>
    obtain ⟨hposition, rfl⟩ := List.getElem?_eq_some_iff.mp hfirst
    have hset := total_set Instruction.weight hposition simpler
    have hweight := Instruction.weight_simplify? hsimplify
    simp only [apply, Program.weight]
    omega
  | idle hrelocatable hfirst hidle =>
    obtain ⟨hposition, rfl⟩ := List.getElem?_eq_some_iff.mp hfirst
    have hdelete := Program.weight_delete hposition
    have hpos := code[position].weight_pos
    simp only [apply]
    omega
  | @pair first second _ hrelocatable hfirst hsecond huntargeted hpair =>
    obtain ⟨hposition, rfl⟩ := List.getElem?_eq_some_iff.mp hfirst
    obtain ⟨hnext, rfl⟩ := List.getElem?_eq_some_iff.mp hsecond
    have hpos := code[position].weight_pos
    -- the two are merged into a lighter one, or both are deleted
    rcases eq_merge_or_removeBoth_of_ofPair? hpair with ⟨merged, rfl⟩ | rfl
    · have hmerged := weight_of_ofPair?_eq_merge hpair
      have hset := total_set Instruction.weight hposition merged
      have hlength : position + 1 < (code.set position merged).length := by
        simpa using hnext
      have hdelete := Program.weight_delete hlength
      have hsecondPos := ((code.set position merged)[position + 1]).weight_pos
      simp only [apply, Program.weight] at hdelete ⊢
      omega
    · have hdelete := Program.weight_delete hnext
      have hlength := Program.length_delete hnext
      have hagain : position < (code.delete (position + 1)).length := by omega
      have hdeleteAgain := Program.weight_delete hagain
      have hsecondPos := code[position + 1].weight_pos
      simp only [apply]
      omega

end Reduction

/-! ## Sweeps -/

namespace Program

/-- Sweeps the program from `position` to its end. -/
def sweep (relocatable : Bool) (code : Program) (position : Nat) : Program :=
  if position < code.length then
    match hat : Reduction.at? relocatable code position with
    | some reduction => sweep relocatable (reduction.apply code position) position
    | none => sweep relocatable code (position + 1)
  else
    code
termination_by code.weight + (code.length - position)
decreasing_by
  · have := Reduction.weight_apply_lt hat
    have := Reduction.length_apply_le code position reduction
    omega
  · omega

/-- Sweeps until a sweep reduces nothing, which shows in the weight. -/
def sweepAll (relocatable : Bool) (code : Program) : Program :=
  let swept := sweep relocatable code 0
  if swept.weight < code.weight then sweepAll relocatable swept else swept
termination_by code.weight

/-- The optimised program. -/
def optimize (code : Program) : Program :=
  sweepAll (!code.any Instruction.isRelativeJump) code.wrapTargets

end Program

/-! ## What sweeps keep -/

namespace Reduction

/-- Every reduction that the rules allow keeps the property of the program. -/
def Keeps (relocatable : Bool) (property : Program → Prop) : Prop :=
  ∀ code position reduction, at? relocatable code position = some reduction →
    property code → property (reduction.apply code position)

variable {relocatable : Bool} {property : Program → Prop}

theorem Keeps.sweep (hkeeps : Keeps relocatable property) {code : Program} (hcode : property code)
    (position : Nat) : property (code.sweep relocatable position) := by
  fun_induction Program.sweep relocatable code position with
  | case1 code position hlt reduction hat ih => exact ih (hkeeps code position reduction hat hcode)
  | case2 code position hlt hat ih => exact ih hcode
  | case3 code position hge => exact hcode

theorem Keeps.sweepAll (hkeeps : Keeps relocatable property) {code : Program}
    (hcode : property code) : property (code.sweepAll relocatable) := by
  fun_induction Program.sweepAll relocatable code with
  | case1 code swept hlighter ih => exact ih (hkeeps.sweep hcode 0)
  | case2 code swept hdone => exact hkeeps.sweep hcode 0

end Reduction

end NodeGrid

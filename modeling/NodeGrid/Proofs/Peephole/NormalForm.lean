import NodeGrid.Proofs.Peephole.Uses

/-!
# The normal form of the optimiser

A sweep can turn up a window to the left of its position, and only the next sweep
sees that.  But the last sweep has lowered no weight, so it has reduced nothing, and
then it has seen every window of the program as the optimiser returns it
(`sweep_eq_and_at?_eq_none`, `isReduced_sweepAll`).  What no rule matches is left alone
by any number of sweeps (`IsReduced.sweepAll_eq`).

A reduction that keeps the length replaces one instruction, since all others remove
some.  So if the whole optimisation has kept the length, it has done no more than
simplify each instruction for itself (`sweepAll_eq_map_simplified`), and that is the
case for every program with a relative jump (`length_sweepAll_of_not_relocatable`).

Both together give the normal form (`normal_optimize`): jumps lead into the program,
nothing can be simplified, and without a relative jump nothing is idle and all pairs
that could be folded have a jump between their halves.
-/

namespace NodeGrid

/-! ## Simplified instructions -/

namespace Instruction

variable {instruction simpler : Instruction}

/-- The plainer instruction if there is one, and otherwise the same. -/
def simplified (instruction : Instruction) : Instruction :=
  instruction.simplify?.getD instruction

theorem simplified_of_simplify? (hsimplify : instruction.simplify? = some simpler) :
    instruction.simplified = simpler := by
  simp [simplified, hsimplify]

theorem simplified_of_simplify?_eq_none (hsimplify : instruction.simplify? = none) :
    instruction.simplified = instruction := by
  simp [simplified, hsimplify]

/-- Jumps have no plainer form, and nothing is simplified to a jump. -/
theorem isRelativeJump_jumpTarget?_simplified (instruction : Instruction) :
    instruction.simplified.isRelativeJump = instruction.isRelativeJump ∧
      instruction.simplified.jumpTarget? = instruction.jumpTarget? := by
  cases hsimplify : instruction.simplify? with
  | none =>
      rw [simplified_of_simplify?_eq_none hsimplify]
      exact ⟨rfl, rfl⟩
  | some simpler =>
      rw [simplified_of_simplify? hsimplify]
      unfold simplify? at hsimplify
      split at hsimplify <;> cases hsimplify <;> exact ⟨rfl, rfl⟩

theorem isRelativeJump_eq_true_iff :
    instruction.isRelativeJump = true ↔ ∃ source, instruction = .unary .jro source := by
  constructor
  · intro hjump
    unfold isRelativeJump at hjump
    split at hjump
    · exact ⟨_, rfl⟩
    · cases hjump
  · rintro ⟨source, rfl⟩
    rfl

end Instruction

/-! ## Reductions that keep the length -/

namespace Reduction

variable {relocatable : Bool} {code : Program} {position : ℕ} {reduction : Reduction}

/-- Apart from replacements, all reductions make a program shorter. -/
theorem exists_replace_of_length_apply (hat : at? relocatable code position = some reduction)
    (hlength : (reduction.apply code position).length = code.length) :
    ∃ first simpler, code[position]? = some first ∧ first.simplify? = some simpler ∧
      reduction = .replace simpler := by
  cases matches_of_at? hat with
  | simplify hfirst hsimplify => exact ⟨_, _, hfirst, hsimplify, rfl⟩
  | idle hrelocatable hfirst hidle =>
      have hshorter := Program.length_delete (List.getElem?_eq_some_iff.mp hfirst).1
      simp only [apply] at hlength
      omega
  | pair hrelocatable hfirst hsecond huntargeted hpair =>
      have hnext := (List.getElem?_eq_some_iff.mp hsecond).1
      rcases eq_merge_or_removeBoth_of_ofPair? hpair with ⟨merged, rfl⟩ | rfl
      · have hroom : position + 1 < (code.set position merged).length := by
          rwa [List.length_set]
        have hshorter := Program.length_delete hroom
        rw [List.length_set] at hshorter
        simp only [apply] at hlength
        omega
      · -- both are deleted, one after the other
        have hshorter := Program.length_delete hnext
        have hnotLonger := Program.length_delete_le (code.delete (position + 1)) position
        simp only [apply] at hlength
        omega

/-- A replacement does not show once everything is simplified. -/
theorem map_simplified_apply (hat : at? relocatable code position = some reduction)
    (hlength : (reduction.apply code position).length = code.length) :
    (reduction.apply code position).map Instruction.simplified =
      code.map Instruction.simplified := by
  obtain ⟨first, simpler, hfirst, hsimplify, rfl⟩ := exists_replace_of_length_apply hat hlength
  obtain ⟨hposition, rfl⟩ := List.getElem?_eq_some_iff.mp hfirst
  have hsimpler : simpler.simplified = code[position].simplified := by
    rw [Instruction.simplified_of_simplify? hsimplify,
      Instruction.simplified_of_simplify?_eq_none
        (Instruction.simplify?_eq_none_of_simplify? hsimplify)]
  have hmapped : position < (code.map Instruction.simplified).length := by
    rwa [List.length_map]
  have hold : (code.map Instruction.simplified)[position] = code[position].simplified :=
    List.getElem_map _
  rw [apply, List.map_set, hsimpler, ← hold, List.set_getElem_self]

/-- Where nothing may move, all reductions are replacements. -/
theorem length_apply_of_not_relocatable (hat : at? false code position = some reduction) :
    (reduction.apply code position).length = code.length := by
  cases matches_of_at? hat with
  | simplify hfirst hsimplify => exact List.length_set ..
  | idle hrelocatable hfirst hidle => cases hrelocatable
  | pair hrelocatable hfirst hsecond huntargeted hpair => cases hrelocatable

end Reduction

namespace Program

variable {relocatable : Bool} {code : Program} {position : ℕ}

/-! ## Sweeps leave nothing to reduce -/

/-- No rule matches anywhere. -/
def IsReduced (relocatable : Bool) (code : Program) : Prop :=
  ∀ position, Reduction.at? relocatable code position = none

theorem weight_sweep_le (relocatable : Bool) (code : Program) (position : ℕ) :
    (sweep relocatable code position).weight ≤ code.weight := by
  have hkeeps : Reduction.Keeps relocatable fun reduced => reduced.weight ≤ code.weight :=
    fun _ _ _ hat hbefore => (Reduction.weight_apply_lt hat).le.trans hbefore
  exact hkeeps.sweep (Nat.le_refl _) position

/-- A sweep that lowers no weight has changed nothing, for no rule matched anywhere on
its way. -/
theorem sweep_eq_and_at?_eq_none
    (hweight : (sweep relocatable code position).weight = code.weight) :
    sweep relocatable code position = code ∧
      ∀ later, position ≤ later → Reduction.at? relocatable code later = none := by
  fun_induction sweep relocatable code position with
  | case1 code position hlt reduction hat ih =>
      -- a rule that matched would have lowered the weight
      have hlighter := Reduction.weight_apply_lt hat
      have hrest := weight_sweep_le relocatable (reduction.apply code position) position
      omega
  | case2 code position hlt hat ih =>
      obtain ⟨hsame, hnone⟩ := ih hweight
      refine ⟨hsame, fun later hlater => ?_⟩
      rcases Nat.eq_or_lt_of_le hlater with rfl | hbehind
      · exact hat
      · exact hnone later hbehind
  | case3 code position hge =>
      -- behind the last instruction no rule can match
      refine ⟨rfl, fun later hlater => ?_⟩
      have hend : code[later]? = none := List.getElem?_eq_none (by omega)
      simp [Reduction.at?, hend]

theorem isReduced_sweepAll (relocatable : Bool) (code : Program) :
    IsReduced relocatable (sweepAll relocatable code) := by
  fun_induction sweepAll relocatable code with
  | case1 code swept hlighter ih => exact ih
  | case2 code swept hdone =>
      have hweight : swept.weight = code.weight :=
        Nat.le_antisymm (weight_sweep_le relocatable code 0) (Nat.le_of_not_lt hdone)
      obtain ⟨hsame, hnone⟩ := sweep_eq_and_at?_eq_none hweight
      intro position
      rw [show swept = code from hsame]
      exact hnone position (Nat.zero_le position)

theorem IsReduced.sweep_eq (hreduced : IsReduced relocatable code) (position : ℕ) :
    sweep relocatable code position = code := by
  fun_induction sweep relocatable code position with
  | case1 code position hlt reduction hat ih =>
      rw [hreduced position] at hat
      cases hat
  | case2 code position hlt hat ih => exact ih hreduced
  | case3 code position hge => rfl

theorem IsReduced.sweepAll_eq (hreduced : IsReduced relocatable code) :
    sweepAll relocatable code = code := by
  rw [sweepAll, hreduced.sweep_eq 0, if_neg (Nat.lt_irrefl _)]

theorem IsReduced.simplify?_eq_none (hreduced : IsReduced relocatable code)
    {instruction : Instruction} (hmem : instruction ∈ code) : instruction.simplify? = none := by
  obtain ⟨position, hposition⟩ := List.mem_iff_getElem?.mp hmem
  cases hsimplify : instruction.simplify? with
  | none => rfl
  | some simpler =>
      exact absurd (.simplify hposition hsimplify)
        (Reduction.not_matches_of_at? (hreduced position) (.replace simpler))

theorem IsReduced.map_simplified (hreduced : IsReduced relocatable code) :
    code.map Instruction.simplified = code := by
  calc code.map Instruction.simplified
      = code.map id := List.map_congr_left fun instruction hmem =>
        Instruction.simplified_of_simplify?_eq_none (hreduced.simplify?_eq_none hmem)
    _ = code := List.map_id code

/-! ## Programs that keep their length -/

theorem map_simplified_sweepAll (hlength : (sweepAll relocatable code).length = code.length) :
    (sweepAll relocatable code).map Instruction.simplified =
      code.map Instruction.simplified := by
  -- a program that has become shorter stays so, and then nothing has to be shown
  have hkeeps : Reduction.Keeps relocatable fun reduced => reduced.length ≤ code.length ∧
      (reduced.length = code.length →
        reduced.map Instruction.simplified = code.map Instruction.simplified) := by
    intro current position reduction hat hbefore
    obtain ⟨hle, hsame⟩ := hbefore
    have happly := Reduction.length_apply_le current position reduction
    refine ⟨happly.trans hle, fun hkept => ?_⟩
    have hcurrent : current.length = code.length := by omega
    calc (reduction.apply current position).map Instruction.simplified
        = current.map Instruction.simplified :=
          Reduction.map_simplified_apply hat (hkept.trans hcurrent.symm)
      _ = code.map Instruction.simplified := hsame hcurrent
  exact (hkeeps.sweepAll ⟨Nat.le_refl _, fun _ => rfl⟩).2 hlength

/-- Sweeps that keep the length simplify each instruction for itself. -/
theorem sweepAll_eq_map_simplified (hlength : (sweepAll relocatable code).length = code.length) :
    sweepAll relocatable code = code.map Instruction.simplified :=
  calc sweepAll relocatable code
      = (sweepAll relocatable code).map Instruction.simplified :=
        (isReduced_sweepAll relocatable code).map_simplified.symm
    _ = code.map Instruction.simplified := map_simplified_sweepAll hlength

theorem length_sweepAll_of_not_relocatable (code : Program) :
    (sweepAll false code).length = code.length := by
  have hkeeps : Reduction.Keeps false fun reduced => reduced.length = code.length :=
    fun _ _ _ hat hbefore => (Reduction.length_apply_of_not_relocatable hat).trans hbefore
  exact hkeeps.sweepAll rfl

theorem length_wrapTargets (code : Program) : code.wrapTargets.length = code.length :=
  List.length_map ..

/-- If the optimised program is not shorter, then every jump has been wrapped and every
instruction simplified in its place. -/
theorem optimize_eq_map_simplified (hlength : code.optimize.length = code.length) :
    code.optimize = code.wrapTargets.map Instruction.simplified := by
  refine sweepAll_eq_map_simplified ?_
  rw [length_wrapTargets]
  exact hlength

/-- Programs with relative jumps keep their length. -/
theorem length_optimize_of_any_isRelativeJump
    (hjump : code.any Instruction.isRelativeJump = true) :
    code.optimize.length = code.length := by
  rw [optimize, hjump, Bool.not_true, length_sweepAll_of_not_relocatable, length_wrapTargets]

/-! ## Targets and relative jumps of optimised programs -/

theorem isRelocatable_optimize (hjump : code.any Instruction.isRelativeJump = false) :
    code.optimize.IsRelocatable := by
  rw [optimize, hjump, Bool.not_false]
  exact (preserves_sweepAll fun _ => IsRelocatable.wrapTargets hjump).isRelocatable rfl

/-- Optimised programs have a relative jump if the original has one. -/
theorem any_isRelativeJump_optimize (code : Program) :
    code.optimize.any Instruction.isRelativeJump = code.any Instruction.isRelativeJump := by
  cases hjump : code.any Instruction.isRelativeJump with
  | true =>
      rw [optimize_eq_map_simplified (length_optimize_of_any_isRelativeJump hjump), wrapTargets,
        List.map_map, List.any_map, ← hjump]
      congr 1
      funext instruction
      rw [Function.comp_apply, Function.comp_apply,
        (Instruction.isRelativeJump_jumpTarget?_simplified _).1,
        Instruction.isRelativeJump_mapTarget]
  | false =>
      rw [List.any_eq_false]
      intro instruction hmem
      rw [(isRelocatable_optimize hjump).absolute instruction hmem]
      exact Bool.false_ne_true

/-- The jumps of an optimised program lead into it. -/
theorem target_lt_length_optimize {instruction : Instruction} (hmem : instruction ∈ code.optimize)
    {target : ℕ} (htarget : instruction.jumpTarget? = some target) :
    target < code.optimize.length := by
  cases hjump : code.any Instruction.isRelativeJump with
  | true =>
      have hlength := length_optimize_of_any_isRelativeJump hjump
      rw [optimize_eq_map_simplified hlength] at hmem
      obtain ⟨wrapped, hwrapped, rfl⟩ := List.mem_map.mp hmem
      obtain ⟨original, horiginal, rfl⟩ := List.mem_map.mp hwrapped
      rw [(Instruction.isRelativeJump_jumpTarget?_simplified _).2,
        Instruction.jumpTarget?_mapTarget] at htarget
      obtain ⟨old, -, rfl⟩ := Option.map_eq_some_iff.mp htarget
      rw [hlength]
      exact Nat.mod_lt _ (List.length_pos_of_mem horiginal)
  | false => exact (isRelocatable_optimize hjump).target_lt instruction hmem target htarget

/-- Wrapping does not move a jump that leads into the program. -/
theorem wrapTargets_eq_self (htargets : ∀ instruction ∈ code, ∀ target,
      instruction.jumpTarget? = some target → target < code.length) :
    code.wrapTargets = code := by
  calc code.wrapTargets = code.map id := List.map_congr_left fun instruction hmem => by
        cases instruction with
        | plain operation => rfl
        | unary operation source => rfl
        | move source target => rfl
        | jump condition target =>
            have hlt := htargets _ hmem target rfl
            simp only [Instruction.mapTarget, Nat.mod_eq_of_lt hlt, id]
    _ = code := List.map_id code

/-! ## The normal form -/

/-- The second instruction overrides the first, or undoes it, or adds to it. -/
inductive Foldable : Instruction → Instruction → Prop where
  | add (first second : Int64) :
      Foldable (.unary .add (.immediate first)) (.unary .add (.immediate second))
  | move (first second : Int64) :
      Foldable (.move (.immediate first) .acc) (.move (.immediate second) .acc)
  | swp : Foldable (.plain .swp) (.plain .swp)
  | neg : Foldable (.plain .neg) (.plain .neg)

theorem Foldable.exists_ofPair? {first second : Instruction} (hfoldable : Foldable first second) :
    ∃ reduction, Reduction.ofPair? first second = some reduction := by
  cases hfoldable with
  | add first second => exact ⟨_, rfl⟩
  | move first second => exact ⟨_, rfl⟩
  | swp => exact ⟨_, rfl⟩
  | neg => exact ⟨_, rfl⟩

/-- Jumps lead into the program, and nothing is written in a roundabout way. -/
structure IsNormal (code : Program) : Prop where
  target_lt : ∀ instruction ∈ code, ∀ target, instruction.jumpTarget? = some target →
    target < code.length
  sub_immediate_not_mem : ∀ value, .unary .sub (.immediate value) ∉ code
  sub_acc_not_mem : .unary .sub (.register .acc) ∉ code
  move_nil_acc_not_mem : .move (.register .nil) .acc ∉ code

/-- There are no idle moves, and a jump leads between the halves of every pair that
could be folded. -/
structure IsCompact (code : Program) : Prop where
  move_nil_nil_not_mem : .move (.register .nil) .nil ∉ code
  move_acc_nil_not_mem : .move (.register .acc) .nil ∉ code
  move_acc_acc_not_mem : .move (.register .acc) .acc ∉ code
  exists_jump : ∀ position first second, code[position]? = some first →
    code[position + 1]? = some second → Foldable first second →
      ∃ jump ∈ code, jump.jumpTarget? = some (position + 1)

theorem IsReduced.isNormal (hreduced : IsReduced relocatable code)
    (htargets : ∀ instruction ∈ code, ∀ target, instruction.jumpTarget? = some target →
      target < code.length) : code.IsNormal where
  target_lt := htargets
  sub_immediate_not_mem := fun _ hmem => nomatch hreduced.simplify?_eq_none hmem
  sub_acc_not_mem := fun hmem => nomatch hreduced.simplify?_eq_none hmem
  move_nil_acc_not_mem := fun hmem => nomatch hreduced.simplify?_eq_none hmem

theorem IsReduced.isIdle_eq_false (hreduced : IsReduced true code) {instruction : Instruction}
    (hmem : instruction ∈ code) : instruction.isIdle = false := by
  obtain ⟨position, hposition⟩ := List.mem_iff_getElem?.mp hmem
  refine Bool.eq_false_iff.mpr fun hidle => ?_
  exact Reduction.not_matches_of_at? (hreduced position) _ (.idle rfl hposition hidle)

theorem IsReduced.isCompact (hreduced : IsReduced true code) : code.IsCompact where
  move_nil_nil_not_mem := fun hmem => nomatch hreduced.isIdle_eq_false hmem
  move_acc_nil_not_mem := fun hmem => nomatch hreduced.isIdle_eq_false hmem
  move_acc_acc_not_mem := fun hmem => nomatch hreduced.isIdle_eq_false hmem
  exists_jump := by
    intro position first second hfirst hsecond hfoldable
    obtain ⟨reduction, hpair⟩ := hfoldable.exists_ofPair?
    cases htarget : code.isTarget (position + 1) with
    | true =>
        obtain ⟨jump, hmem, hjump⟩ := List.any_eq_true.mp htarget
        exact ⟨jump, hmem, eq_of_beq hjump⟩
    | false =>
        exact absurd (.pair rfl hfirst hsecond htarget hpair)
          (Reduction.not_matches_of_at? (hreduced position) reduction)

theorem isReduced_optimize (code : Program) :
    IsReduced (!code.any Instruction.isRelativeJump) code.optimize :=
  isReduced_sweepAll _ code.wrapTargets

theorem optimize_optimize (code : Program) : code.optimize.optimize = code.optimize := by
  have hwrapped : code.optimize.wrapTargets = code.optimize :=
    wrapTargets_eq_self fun instruction hmem target => target_lt_length_optimize hmem
  calc code.optimize.optimize
      = sweepAll (!code.any Instruction.isRelativeJump) code.optimize := by
        rw [optimize, any_isRelativeJump_optimize, hwrapped]
    _ = code.optimize := (isReduced_optimize code).sweepAll_eq

/-- Optimised programs stay as they are when they are optimised again.  They are in
normal form, and compact unless a relative jump forbids to move anything. -/
theorem normal_optimize (code : Program) :
    code.optimize.optimize = code.optimize ∧ code.optimize.IsNormal ∧
      ((∀ source, .unary .jro source ∉ code) → code.optimize.IsCompact) := by
  have hreduced := isReduced_optimize code
  refine ⟨optimize_optimize code,
    hreduced.isNormal fun instruction hmem target => target_lt_length_optimize hmem, ?_⟩
  intro habsolute
  have hjump : code.any Instruction.isRelativeJump = false := by
    rw [List.any_eq_false]
    intro instruction hmem hrelative
    obtain ⟨source, rfl⟩ := Instruction.isRelativeJump_eq_true_iff.mp hrelative
    exact habsolute source hmem
  rw [hjump, Bool.not_false] at hreduced
  exact hreduced.isCompact

theorem isCompact_optimize_countdown :
    (∀ source, .unary .jro source ∉ Node.countdown) ∧ Node.countdown.optimize.IsCompact := by
  have habsolute : ∀ source, .unary .jro source ∉ Node.countdown := by
    intro source hmem
    have hjump : Node.countdown.any Instruction.isRelativeJump = true :=
      List.any_eq_true.mpr ⟨_, hmem, rfl⟩
    exact absurd hjump (by decide)
  exact ⟨habsolute, (normal_optimize Node.countdown).2.2 habsolute⟩

end Program

end NodeGrid

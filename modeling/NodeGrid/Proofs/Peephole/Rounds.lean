import NodeGrid.Proofs.Peephole.NormalForm
import NodeGrid.Proofs.Yields

/-!
# The rounds of the optimiser

The optimiser as a loop that goes round by round, and that checks each index before it
uses it and each divisor before it divides (`Scan.round`).  A round reduces the window at
the position and stays there, or goes on to the next position, or starts the next sweep
if this one has changed something, or ends the loop; and it never stumbles over an index
or a divisor (`Scan.exists_round`).

The loop ends because every round lowers the `Scan.potential`.  A reduction lowers the
weight of the program, which pays for a sweep through all of it, and a sweep that has
changed something keeps what the next sweep needs.  What the loop returns is there from
the beginning, since no round changes the `Scan.result`; and as each reduction costs the
program some of its weight, the weight at the start bounds the number of reductions
(`Scan.exists_ends`).  For the optimiser this is `ends_optimize`.
-/

namespace NodeGrid

/-! ## Checked operations -/

/-- What a loop over a program must not do. -/
inductive Stumble where
  /-- There is no instruction at the position. -/
  | noInstruction (position : ℕ)
  /-- A remainder by zero is taken. -/
  | zeroDivisor

/-- The remainder, unless the divisor is zero. -/
def remainder (dividend divisor : ℕ) : Except Stumble ℕ :=
  if divisor = 0 then .error .zeroDivisor else .ok (dividend % divisor)

/-- Changes where a jump leads. -/
def Instruction.retarget (move : ℕ → Except Stumble ℕ) : Instruction → Except Stumble Instruction
  | .jump condition target => do return .jump condition (← move target)
  | instruction => .ok instruction

namespace Program

/-- The instruction at an index of the program. -/
def fetch (code : Program) (position : ℕ) : Except Stumble Instruction :=
  match code[position]? with
  | some instruction => .ok instruction
  | none => .error (.noInstruction position)

/-- Replaces the instruction at an index of the program. -/
def replaceAt (code : Program) (position : ℕ) (instruction : Instruction) :
    Except Stumble Program :=
  if position < code.length then .ok (code.set position instruction)
  else .error (.noInstruction position)

/-- Removes the instruction at an index of the program, and takes each jump along. -/
def deleteAt (code : Program) (position : ℕ) : Except Stumble Program :=
  if position < code.length then
    let rest := code.eraseIdx position
    rest.mapM (Instruction.retarget fun target =>
      let moved := if position < target then target - 1 else target
      if 0 < rest.length then remainder moved rest.length else .ok moved)
  else .error (.noInstruction position)

/-- Lets every jump lead to a position of the program. -/
def wrapEach (code : Program) : Except Stumble Program :=
  code.mapM (Instruction.retarget fun target => remainder target code.length)

end Program

/-- What to do with the window at an index of the program, if anything. -/
def Reduction.find (relocatable : Bool) (code : Program) (position : ℕ) :
    Except Stumble (Option Reduction) := do
  let _ ← code.fetch position
  return Reduction.at? relocatable code position

/-- Reduces the window at `position`.  Of two instructions, the second is removed first. -/
def Reduction.perform (code : Program) (position : ℕ) : Reduction → Except Stumble Program
  | .replace instruction => code.replaceAt position instruction
  | .remove => code.deleteAt position
  | .merge instruction => do
    let replaced ← code.replaceAt position instruction
    Program.deleteAt replaced (position + 1)
  | .removeBoth => do
    let shorter ← code.deleteAt (position + 1)
    Program.deleteAt shorter position

/-! ## The loop -/

/-- How far the optimiser has come. -/
structure Scan where
  code : Program
  position : ℕ
  /-- Whether the current sweep has changed something. -/
  changed : Bool
  /-- The number of reductions since the beginning. -/
  reductions : ℕ

namespace Scan

/-- The first sweep is about to begin. -/
def start (code : Program) : Scan := ⟨code, 0, false, 0⟩

/-- Goes one round.  There is no next one after a sweep that has changed nothing. -/
def round (relocatable : Bool) (scan : Scan) : Except Stumble (Option Scan) :=
  if scan.position < scan.code.length then do
    match ← Reduction.find relocatable scan.code scan.position with
    | some reduction =>
      let reduced ← reduction.perform scan.code scan.position
      return some ⟨reduced, scan.position, true, scan.reductions + 1⟩
    | none => return some ⟨scan.code, scan.position + 1, scan.changed, scan.reductions⟩
  else if scan.changed then .ok (some ⟨scan.code, 0, false, scan.reductions⟩)
  else .ok none

/-- The loop comes to its end after the given number of rounds. -/
inductive Ends (relocatable : Bool) : Scan → ℕ → Scan → Prop where
  | done {scan : Scan} (hround : scan.round relocatable = .ok none) :
      Ends relocatable scan 0 scan
  | step {scan next last : Scan} {rounds : ℕ}
      (hround : scan.round relocatable = .ok (some next))
      (hrest : Ends relocatable next rounds last) :
      Ends relocatable scan (rounds + 1) last

end Scan

/-! ## No operation stumbles -/

theorem remainder_eq_ok {dividend divisor : ℕ} (hdivisor : 0 < divisor) :
    remainder dividend divisor = .ok (dividend % divisor) :=
  if_neg (Nat.ne_of_gt hdivisor)

theorem Instruction.retarget_eq_ok {move : ℕ → Except Stumble ℕ} {f : ℕ → ℕ}
    (hmove : ∀ target, move target = .ok (f target)) (instruction : Instruction) :
    instruction.retarget move = .ok (instruction.mapTarget f) := by
  cases instruction with
  | plain operation => rfl
  | unary operation source => rfl
  | move source register => rfl
  | jump condition target =>
      rw [retarget, hmove]
      rfl

namespace Program

variable {code : Program} {position : ℕ}

theorem fetch_eq_ok (hposition : position < code.length) :
    code.fetch position = .ok code[position] := by
  simp [fetch, hposition]

theorem deleteAt_eq_ok (hposition : position < code.length) :
    code.deleteAt position = .ok (code.delete position) := by
  rw [deleteAt, if_pos hposition, mapM_eq_ok_iff, delete, List.forall₂_map_right_iff,
    List.forall₂_same]
  intro instruction hmem
  -- whoever asks for a remainder is itself part of what is left
  have hrest : 0 < (code.eraseIdx position).length := List.length_pos_of_mem hmem
  refine Instruction.retarget_eq_ok (fun target => ?_) instruction
  rw [if_pos hrest, remainder_eq_ok hrest]

theorem wrapEach_eq_ok (code : Program) : code.wrapEach = .ok code.wrapTargets := by
  rw [wrapEach, mapM_eq_ok_iff, wrapTargets, List.forall₂_map_right_iff, List.forall₂_same]
  intro instruction hmem
  exact Instruction.retarget_eq_ok
    (fun target => remainder_eq_ok (List.length_pos_of_mem hmem)) instruction

end Program

theorem Reduction.find_eq_ok {relocatable : Bool} {code : Program} {position : ℕ}
    (hposition : position < code.length) :
    Reduction.find relocatable code position = .ok (Reduction.at? relocatable code position) := by
  rw [find, Program.fetch_eq_ok hposition]
  rfl

/-- A rule reduces only what is there. -/
theorem Reduction.perform_eq_ok {relocatable : Bool} {code : Program} {position : ℕ}
    {reduction : Reduction} (hmatches : Matches relocatable code position reduction) :
    reduction.perform code position = .ok (reduction.apply code position) := by
  cases hmatches with
  | simplify hfirst hsimplify => exact if_pos (List.getElem?_eq_some_iff.mp hfirst).1
  | idle hrelocatable hfirst hidle =>
      exact Program.deleteAt_eq_ok (List.getElem?_eq_some_iff.mp hfirst).1
  | pair hrelocatable hfirst hsecond huntargeted hpair =>
      have hposition := (List.getElem?_eq_some_iff.mp hfirst).1
      have hnext := (List.getElem?_eq_some_iff.mp hsecond).1
      -- of a pair, the second one goes first, so that the index of the first one stays
      rcases eq_merge_or_removeBoth_of_ofPair? hpair with ⟨merged, rfl⟩ | rfl
      · have hroom : position + 1 < (code.set position merged).length := by
          rwa [List.length_set]
        rw [perform, Program.replaceAt, if_pos hposition, ok_bind, Program.deleteAt_eq_ok hroom]
        rfl
      · have hshorter := Program.length_delete hnext
        rw [perform, Program.deleteAt_eq_ok hnext, ok_bind,
          Program.deleteAt_eq_ok (by omega : position < (code.delete (position + 1)).length)]
        rfl

namespace Scan

variable {relocatable : Bool} {scan next : Scan}

/-- What a round may do. -/
inductive Turns (relocatable : Bool) (scan : Scan) : Option Scan → Prop where
  | reduce {reduction : Reduction} (hposition : scan.position < scan.code.length)
      (hat : Reduction.at? relocatable scan.code scan.position = some reduction) :
      Turns relocatable scan
        (some ⟨reduction.apply scan.code scan.position, scan.position, true, scan.reductions + 1⟩)
  | advance (hposition : scan.position < scan.code.length)
      (hat : Reduction.at? relocatable scan.code scan.position = none) :
      Turns relocatable scan
        (some ⟨scan.code, scan.position + 1, scan.changed, scan.reductions⟩)
  | again (hend : scan.code.length ≤ scan.position) (hchanged : scan.changed = true) :
      Turns relocatable scan (some ⟨scan.code, 0, false, scan.reductions⟩)
  | finish (hend : scan.code.length ≤ scan.position) (hchanged : scan.changed = false) :
      Turns relocatable scan none

theorem exists_round (relocatable : Bool) (scan : Scan) :
    ∃ outcome, scan.round relocatable = .ok outcome ∧ scan.Turns relocatable outcome := by
  rcases Nat.lt_or_ge scan.position scan.code.length with hposition | hend
  · rw [round, if_pos hposition, Reduction.find_eq_ok hposition, ok_bind]
    cases hat : Reduction.at? relocatable scan.code scan.position with
    | some reduction =>
        simp only [Reduction.perform_eq_ok (Reduction.matches_of_at? hat), ok_bind]
        exact ⟨_, rfl, .reduce hposition hat⟩
    | none => exact ⟨_, rfl, .advance hposition hat⟩
  · rw [round, if_neg (Nat.not_lt.mpr hend)]
    cases hchanged : scan.changed with
    | true => exact ⟨_, rfl, .again hend hchanged⟩
    | false => exact ⟨_, rfl, .finish hend hchanged⟩

/-! ## The loop ends -/

/-- A bound on the rounds that are left of a program with at most `limit` instructions:
a sweep for every unit of weight, a sweep to find that nothing is left to do, and the
rest of the current one. -/
def potential (limit : ℕ) (scan : Scan) : ℕ :=
  scan.code.weight * (limit + 2) + (if scan.changed then limit + 1 else 0) +
    (limit - scan.position)

theorem Turns.length_le (hturns : scan.Turns relocatable (some next)) :
    next.code.length ≤ scan.code.length := by
  cases hturns with
  | reduce hposition hat => exact Reduction.length_apply_le ..
  | advance hposition hat => exact Nat.le_refl _
  | again hend hchanged => exact Nat.le_refl _

theorem Turns.potential_lt {limit : ℕ} (hturns : scan.Turns relocatable (some next))
    (hlimit : scan.code.length ≤ limit) : next.potential limit < scan.potential limit := by
  cases hturns with
  | @reduce reduction hposition hat =>
      have hlighter := Reduction.weight_apply_lt hat
      -- one unit of weight pays for the sweep that has to follow
      have hpays : (reduction.apply scan.code scan.position).weight * (limit + 2) + (limit + 2) ≤
          scan.code.weight * (limit + 2) := by
        rw [← Nat.succ_mul]
        exact Nat.mul_le_mul_right _ hlighter
      simp only [potential, if_true]
      omega
  | advance hposition hat =>
      simp only [potential]
      omega
  | again hend hchanged =>
      simp only [potential, hchanged, if_true, Bool.false_eq_true, if_false]
      omega

/-- Every reduction takes some of the weight. -/
theorem Turns.reductions_add_weight_le (hturns : scan.Turns relocatable (some next)) :
    next.reductions + next.code.weight ≤ scan.reductions + scan.code.weight := by
  cases hturns with
  | reduce hposition hat =>
      have hlighter := Reduction.weight_apply_lt hat
      simp only
      omega
  | advance hposition hat => exact Nat.le_refl _
  | again hend hchanged => exact Nat.le_refl _

end Scan

/-! ## What the loop returns -/

namespace Program

variable {relocatable : Bool} {code : Program} {position : ℕ} {reduction : Reduction}

theorem sweep_of_at?_eq_some (hposition : position < code.length)
    (hat : Reduction.at? relocatable code position = some reduction) :
    sweep relocatable code position =
      sweep relocatable (reduction.apply code position) position := by
  rw [sweep, if_pos hposition]
  split <;> simp_all

theorem sweep_of_at?_eq_none (hposition : position < code.length)
    (hat : Reduction.at? relocatable code position = none) :
    sweep relocatable code position = sweep relocatable code (position + 1) := by
  rw [sweep, if_pos hposition]
  split <;> simp_all

theorem sweep_of_length_le (hend : code.length ≤ position) :
    sweep relocatable code position = code := by
  rw [sweep, if_neg (Nat.not_lt.mpr hend)]

end Program

namespace Scan

variable {relocatable : Bool} {scan next : Scan}

/-- What is left to do leads to this program: the rest of the sweep, and all others
if there was something to change in this one. -/
def result (relocatable : Bool) (scan : Scan) : Program :=
  let swept := Program.sweep relocatable scan.code scan.position
  if scan.changed = true ∨ swept.weight < scan.code.weight then
    Program.sweepAll relocatable swept
  else swept

theorem result_start (relocatable : Bool) (code : Program) :
    (start code).result relocatable = Program.sweepAll relocatable code := by
  rw [Program.sweepAll]
  simp [result, start]

theorem Turns.result_eq (hturns : scan.Turns relocatable (some next)) :
    next.result relocatable = scan.result relocatable := by
  cases hturns with
  | @reduce reduction hposition hat =>
      have hlighter := Reduction.weight_apply_lt hat
      have hrest := Program.weight_sweep_le relocatable
        (reduction.apply scan.code scan.position) scan.position
      simp only [result, Program.sweep_of_at?_eq_some hposition hat, true_or, if_true]
      rw [if_pos (Or.inr (by omega))]
  | advance hposition hat => simp only [result, Program.sweep_of_at?_eq_none hposition hat]
  | again hend hchanged =>
      rw [show (⟨scan.code, 0, false, scan.reductions⟩ : Scan).result relocatable =
        Program.sweepAll relocatable scan.code from result_start relocatable scan.code]
      simp only [result, Program.sweep_of_length_le hend, hchanged, true_or, if_true]

theorem Turns.result_eq_code (hturns : scan.Turns relocatable none) :
    scan.result relocatable = scan.code := by
  cases hturns with
  | finish hend hchanged =>
      simp [result, Program.sweep_of_length_le hend, hchanged]

/-- The loop ends, within its potential and with its result. -/
theorem exists_ends (relocatable : Bool) {limit : ℕ} (scan : Scan)
    (hlimit : scan.code.length ≤ limit) :
    ∃ rounds last, Ends relocatable scan rounds last ∧ rounds ≤ scan.potential limit ∧
      last.code = scan.result relocatable ∧
      last.reductions + last.code.weight ≤ scan.reductions + scan.code.weight := by
  induction hpotential : scan.potential limit using Nat.strong_induction_on generalizing scan with
  | _ potential ih =>
      obtain ⟨outcome, hround, hturns⟩ := exists_round relocatable scan
      cases outcome with
      | none =>
          exact ⟨0, scan, .done hround, Nat.zero_le _, hturns.result_eq_code.symm, Nat.le_refl _⟩
      | some next =>
          have hlower : next.potential limit < potential := hpotential ▸ hturns.potential_lt hlimit
          obtain ⟨rounds, last, hends, hrounds, hcode, hreductions⟩ :=
            ih _ hlower next (hturns.length_le.trans hlimit) rfl
          refine ⟨rounds + 1, last, .step hround hends, by omega, ?_, ?_⟩
          · rw [hcode, hturns.result_eq]
          · exact hreductions.trans hturns.reductions_add_weight_le

end Scan

/-! ## The optimiser -/

/-- Whether the instruction is one of those that are replaced by a plainer one. -/
def Instruction.isRoundabout : Instruction → Bool
  | .unary .sub (.immediate _) => true
  | .unary .sub (.register .acc) => true
  | .move (.register .nil) .acc => true
  | _ => false

theorem Instruction.isSome_simplify? (instruction : Instruction) :
    instruction.simplify?.isSome = instruction.isRoundabout := by
  fun_cases simplify? instruction with
  | case1 value => rfl
  | case2 => rfl
  | case3 => rfl
  | case4 hvalue hacc hnil =>
      unfold isRoundabout
      split <;> simp_all

namespace Program

theorem weight_eq_length_add_countP (code : Program) :
    code.weight = code.length + code.countP Instruction.isRoundabout := by
  induction code with
  | nil => rfl
  | cons first rest ih =>
      have hweight : weight (first :: rest) = first.weight + weight rest := rfl
      rw [hweight, ih, Instruction.weight, Instruction.isSome_simplify?, List.countP_cons,
        List.length_cons]
      split <;> omega

/-- The loop of the optimiser stumbles over nothing and comes to its end with the
optimised program.  It reduces at most once for every instruction, and once more for
every one that is replaced by a plainer one. -/
theorem ends_optimize (code : Program) :
    ∃ wrapped rounds last, code.wrapEach = .ok wrapped ∧
      Scan.Ends (!code.any Instruction.isRelativeJump) (.start wrapped) rounds last ∧
      last.code = code.optimize ∧
      last.reductions ≤ code.length + code.countP Instruction.isRoundabout ∧
      rounds ≤ (code.length + code.countP Instruction.isRoundabout) * (code.length + 2) +
        code.length := by
  have hlength : code.wrapTargets.length ≤ code.length := (length_wrapTargets code).le
  have hweight : code.wrapTargets.weight = code.length + code.countP Instruction.isRoundabout :=
    (weight_map_mapTarget _ code).trans code.weight_eq_length_add_countP
  obtain ⟨rounds, last, hends, hrounds, hcode, hreductions⟩ :=
    Scan.exists_ends (!code.any Instruction.isRelativeJump) (.start code.wrapTargets) hlength
  refine ⟨code.wrapTargets, rounds, last, code.wrapEach_eq_ok, hends, ?_, ?_, ?_⟩
  · rw [hcode, Scan.result_start, optimize]
  · simp only [Scan.start, hweight] at hreductions
    omega
  · simpa [Scan.potential, Scan.start, hweight] using hrounds

end Program

end NodeGrid

import NodeGrid.Proofs.Peephole.Rewrites

/-!
# The optimiser preserves what a node does at its ports

Every reduction is one of the rewrites of `Rewrites.lean`, or a few of them one
after the other (`preserves_of_at?`).  A merged pair first becomes the merged
instruction and `NOP`, and the `NOP` is deleted then.  A removed pair is a pair merged
into `NOP`.  Reductions keep a program relocatable, so that a sweep, and then all
sweeps of the optimiser, refine the program (`refines_optimize`).

For nodes it follows that a node performs the same port events with the optimised
program as with the original one (`performsAlike_optimize`).
-/

namespace NodeGrid

namespace Program

variable {code : Program} {position : ℕ} {first second merged : Instruction}

/-! ## Merging and removing pairs -/

/-- Deleting does not look at what it deletes. -/
theorem delete_set_self (code : Program) (position : ℕ) (instruction : Instruction) :
    Program.delete (code.set position instruction) position = code.delete position := by
  simp only [delete, List.eraseIdx_set_eq]

/-- A `NOP` before the deleted instruction stays where it is. -/
theorem delete_set_nop (code : Program) (position : ℕ) :
    Program.delete (code.set position (.plain .nop)) (position + 1) =
      (code.delete (position + 1)).set position (.plain .nop) := by
  simp only [delete]
  rw [List.eraseIdx_set_gt (Nat.lt_succ_self position), List.map_set, List.length_set]
  rfl

/-- A pair that no jump leads into may be replaced by one instruction that computes
the same. -/
theorem refines_merge (hrelocatable : code.IsRelocatable) {compute : Data → Data}
    (hfirst : code[position]? = some first) (hsecond : code[position + 1]? = some second)
    (huntargeted : code.isTarget (position + 1) = false)
    (hpair : Instruction.PairComputes first second compute) (hmerged : merged.Computes compute)
    (hplain : merged.isRelativeJump = false ∧ merged.jumpTarget? = none) :
    Refines code (Program.delete (code.set position merged) (position + 1)) := by
  have hnop : Instruction.Computes (.plain .nop) id := Instruction.computes_plain .nop
  have hother : Instruction.PairComputes merged (.plain .nop) compute :=
    ⟨compute, id, hmerged, hnop, fun _ => rfl⟩
  -- first the pair becomes `merged` and `NOP`, and then the `NOP` is deleted
  have hset := refines_set_pair hrelocatable hfirst hsecond huntargeted hpair hother
  have hroom : position + 1 < (code.set position merged).length := by
    rw [List.length_set]
    exact (List.getElem?_eq_some_iff.mp hsecond).1
  have hdelete := refines_delete
    ((hrelocatable.set position hplain).set (position + 1) ⟨rfl, rfl⟩)
    (List.getElem?_set_self hroom) hnop
  rw [delete_set_self] at hdelete
  exact hset.trans hdelete

/-- A pair that does nothing may be deleted if no jump leads into it. -/
theorem refines_removeBoth (hrelocatable : code.IsRelocatable)
    (hfirst : code[position]? = some first) (hsecond : code[position + 1]? = some second)
    (huntargeted : code.isTarget (position + 1) = false)
    (hpair : Instruction.PairComputes first second id) :
    Refines code ((code.delete (position + 1)).delete position) := by
  have hnop : Instruction.Computes (.plain .nop) id := Instruction.computes_plain .nop
  have hmerge := refines_merge hrelocatable hfirst hsecond huntargeted hpair hnop ⟨rfl, rfl⟩
  have hroom : position < (code.delete (position + 1)).length := by
    have hlt := (List.getElem?_eq_some_iff.mp hsecond).1
    have := length_delete hlt
    omega
  have hdelete := refines_delete
    ((hrelocatable.delete (position + 1)).set position ⟨rfl, rfl⟩)
    (List.getElem?_set_self hroom) hnop
  rw [delete_set_nop] at hmerge
  rw [delete_set_self] at hdelete
  exact hmerge.trans hdelete

/-! ## Reductions -/

/-- What a reduction at a position keeps of a program that may be relocatable. -/
structure Preserves (relocatable : Bool) (code reduced : Program) : Prop where
  refines : Refines code reduced
  isRelocatable : relocatable = true → reduced.IsRelocatable

namespace Preserves

variable {relocatable : Bool} {between reduced : Program}

theorem refl (hrelocatable : relocatable = true → code.IsRelocatable) :
    Preserves relocatable code code :=
  ⟨.refl code, hrelocatable⟩

theorem trans (hfirst : Preserves relocatable code between)
    (hrest : Preserves relocatable between reduced) : Preserves relocatable code reduced :=
  ⟨hfirst.refines.trans hrest.refines, hrest.isRelocatable⟩

end Preserves

variable {relocatable : Bool}

theorem preserves_of_ofPair? (hrelocatable : code.IsRelocatable)
    (hfirst : code[position]? = some first) (hsecond : code[position + 1]? = some second)
    (huntargeted : code.isTarget (position + 1) = false) {reduction : Reduction}
    (hpair : Reduction.ofPair? first second = some reduction) :
    Preserves true code (reduction.apply code position) := by
  rcases Reduction.eq_merge_or_removeBoth_of_ofPair? hpair with ⟨merged, rfl⟩ | rfl
  · obtain ⟨compute, hcomputes, hmerged⟩ := Reduction.computes_of_ofPair?_eq_merge hpair
    have hplain := Reduction.isRelativeJump_of_ofPair?_eq_merge hpair
    exact ⟨refines_merge hrelocatable hfirst hsecond huntargeted hcomputes hmerged hplain,
      fun _ => (hrelocatable.set position hplain).delete (position + 1)⟩
  · have hcomputes := Reduction.computes_of_ofPair?_eq_removeBoth hpair
    exact ⟨refines_removeBoth hrelocatable hfirst hsecond huntargeted hcomputes,
      fun _ => (hrelocatable.delete (position + 1)).delete position⟩

theorem preserves_of_at? (hrelocatable : relocatable = true → code.IsRelocatable)
    {reduction : Reduction} (hat : Reduction.at? relocatable code position = some reduction) :
    Preserves relocatable code (reduction.apply code position) := by
  cases Reduction.matches_of_at? hat with
  | simplify hfirst hsimplify =>
      have hplain := Instruction.isRelativeJump_of_simplify? hsimplify
      exact ⟨refines_set hfirst (Instruction.effect_of_simplify? hsimplify),
        fun hmoves => (hrelocatable hmoves).set position hplain⟩
  | idle hmoves hfirst hidle =>
      have hcode := hrelocatable hmoves
      exact ⟨refines_delete hcode hfirst (Instruction.computes_of_isIdle hidle),
        fun _ => hcode.delete position⟩
  | pair hmoves hfirst hsecond huntargeted hpair =>
      subst hmoves
      exact preserves_of_ofPair? (hrelocatable rfl) hfirst hsecond huntargeted hpair

/-! ## Sweeps -/

theorem preserves_sweepAll (hrelocatable : relocatable = true → code.IsRelocatable) :
    Preserves relocatable code (sweepAll relocatable code) := by
  have hkeeps : Reduction.Keeps relocatable (Preserves relocatable code) :=
    fun _ _ _ hat hbefore => hbefore.trans (preserves_of_at? hbefore.isRelocatable hat)
  exact hkeeps.sweepAll (.refl hrelocatable)

/-- The optimised program does the same at its ports as the original. -/
theorem refines_optimize (code : Program) : Refines code code.optimize := by
  refine (refines_wrapTargets code).trans (preserves_sweepAll ?_).refines
  intro hmoves
  exact .wrapTargets (Bool.eq_false_iff.mpr fun hjump => by simp [hjump] at hmoves)

end Program

/-! ## Nodes -/

namespace Node

variable {m n : ℕ} {node : Node m} {optimized : Node n} {supply : Supply}

/-- All ports are connected, the registers are empty and no instruction has been
started. -/
structure IsStarting (node : Node n) : Prop where
  connected : ∀ port, ∃ k, node.ports port = some k
  acc_eq : node.acc = 0
  bak_eq : node.bak = 0
  nextIp_eq : node.nextIp = 0
  executed_eq : node.executed = 0

/-- The node performs at least `count` port events, if it takes enough steps. -/
def PerformsAtLeast (node : Node n) (supply : Supply) (count : ℕ) : Prop :=
  ∃ steps moments, node.history supply steps = .ok moments ∧ count ≤ moments.length

/-- The second node performs the same port events as the first. -/
structure PerformsAlike (node : Node m) (optimized : Node n) (supply : Supply) : Prop where
  history_ok : ∀ steps, ∃ moments, node.history supply steps = .ok moments
  optimized_history_ok : ∀ steps, ∃ moments, optimized.history supply steps = .ok moments
  performsAtLeast_iff : ∀ count,
    node.PerformsAtLeast supply count ↔ optimized.PerformsAtLeast supply count
  /-- However many steps the nodes take, events with the same number match. -/
  matches_moments : ∀ {steps fewer moments others},
    node.history supply steps = .ok moments → optimized.history supply fewer = .ok others →
      ∀ {index : ℕ} {moment other : Moment}, moments[index]? = some moment →
        others[index]? = some other → moment.Matches other

theorem IsStarting.history_eq_trace (hstarting : node.IsStarting) (supply : Supply)
    (steps : ℕ) : node.history supply steps =
      .ok ((Machine.start ⟨0, 0, supply⟩).trace node.program steps) := by
  have hrunning : node.IsRunning := by
    refine ⟨hstarting.connected, fun hprogram => ?_⟩
    rw [hstarting.nextIp_eq]
    exact List.length_pos_iff.mpr hprogram
  have hmachine : node.machine supply = Machine.start ⟨0, 0, supply⟩ := by
    simp only [machine, Machine.start, hstarting.acc_eq, hstarting.bak_eq, hstarting.nextIp_eq,
      hstarting.executed_eq]
  rw [hrunning.history_eq_trace, hmachine]

theorem IsStarting.performsAtLeast_iff (hstarting : node.IsStarting) {count : ℕ} :
    node.PerformsAtLeast supply count ↔
      ∃ steps, count ≤ ((Machine.start ⟨0, 0, supply⟩).trace node.program steps).length := by
  constructor
  · rintro ⟨steps, moments, hhistory, hcount⟩
    rw [hstarting.history_eq_trace] at hhistory
    cases hhistory
    exact ⟨steps, hcount⟩
  · rintro ⟨steps, hcount⟩
    exact ⟨steps, _, hstarting.history_eq_trace supply steps, hcount⟩

/-- A node does the same at its ports if it starts with the optimised program. -/
theorem performsAlike_optimize (hnode : node.IsStarting) (hoptimized : optimized.IsStarting)
    (hprogram : optimized.program = node.program.optimize) (supply : Supply) :
    node.PerformsAlike optimized supply where
  history_ok := fun steps => ⟨_, hnode.history_eq_trace supply steps⟩
  optimized_history_ok := fun steps => ⟨_, hoptimized.history_eq_trace supply steps⟩
  performsAtLeast_iff := by
    intro count
    have hrefines := Program.refines_optimize node.program
    rw [hnode.performsAtLeast_iff, hoptimized.performsAtLeast_iff, hprogram]
    -- fewer steps of the optimised program do as much, and more steps of the original one
    constructor
    · rintro ⟨steps, hcount⟩
      obtain ⟨fewer, hmatches⟩ := hrefines.exists_optimized ⟨0, 0, supply⟩ steps
      exact ⟨fewer, hmatches.length_eq ▸ hcount⟩
    · rintro ⟨fewer, hcount⟩
      obtain ⟨steps, hmatches⟩ := hrefines.exists_original ⟨0, 0, supply⟩ fewer
      exact ⟨steps, hmatches.length_eq ▸ hcount⟩
  matches_moments := by
    intro steps fewer moments others hhistory hothers index moment other hmoment hother
    rw [hnode.history_eq_trace] at hhistory
    rw [hoptimized.history_eq_trace, hprogram] at hothers
    cases hhistory
    cases hothers
    exact (Program.refines_optimize node.program).matches_of_getElem? hmoment hother

/-- A new node that runs `code` and whose ports all lead to the same channel. -/
def ofProgram (code : Program) : Node 1 :=
  { inert "NODE" (fun _ => some 0) with compilation := some ⟨code, []⟩ }

/-- Writes minus two over and over. -/
def countdown : Program :=
  [.unary .sub (.immediate 1), .unary .sub (.immediate 1), .move (.register .acc) (.port .down),
    .move (.register .nil) .acc]

theorem performsAlike_countdown :
    (ofProgram countdown).IsStarting ∧ (ofProgram countdown.optimize).IsStarting ∧
      (ofProgram countdown.optimize).program = (ofProgram countdown).program.optimize ∧
      (ofProgram countdown).PerformsAlike (ofProgram countdown.optimize) (fun _ _ => 0) ∧
      (ofProgram countdown.optimize).PerformsAtLeast (fun _ _ => 0) 2 := by
  have hstarting : ∀ code, (ofProgram code).IsStarting := fun code =>
    ⟨fun _ => ⟨0, rfl⟩, rfl, rfl, rfl, rfl⟩
  have halike := performsAlike_optimize (hstarting countdown) (hstarting countdown.optimize) rfl
    fun _ _ => 0
  have hwrites : (ofProgram countdown).PerformsAtLeast (fun _ _ => 0) 2 :=
    ⟨8, [⟨.write .down (-2), -2, 0, 2⟩, ⟨.write .down (-2), -2, 0, 6⟩], rfl, Nat.le_refl 2⟩
  exact ⟨hstarting _, hstarting _, rfl, halike, (halike.performsAtLeast_iff 2).mp hwrites⟩

end Node

end NodeGrid

import NodeGrid.Proofs.Assembly.RoundTrip
import NodeGrid.Proofs.Participant.Streams
import NodeGrid.Proofs.Peephole.Preservation

/-!
# What optimised programs use

An optimised program has no more instructions than the original, reads and writes no
port that the original does not, and jumps nowhere behind the end of the original
(`Program.Within`).  Every instruction that a reduction leaves is an old one, whose jump
may lead to an earlier index, or a new one that has neither a port nor a target
(`Within.of_forall`); and what reductions keep, the optimiser keeps
(`within_optimize`).

The instructions that use ports are all left, in their order (`portUses_optimize`).  For
what a reduction replaces or removes has no port either.
-/

namespace NodeGrid

namespace Instruction

/-- The instruction has neither a port nor a jump target. -/
structure IsPlain (instruction : Instruction) : Prop where
  readPort?_eq : instruction.readPort? = none
  writtenPort?_eq : instruction.writtenPort? = none
  jumpTarget?_eq : instruction.jumpTarget? = none

theorem isPlain_of_simplify? {instruction simpler : Instruction}
    (hsimplify : instruction.simplify? = some simpler) : simpler.IsPlain := by
  unfold simplify? at hsimplify
  split at hsimplify <;> cases hsimplify <;> exact ⟨rfl, rfl, rfl⟩

theorem isPlain_of_ofPair? {first second merged : Instruction}
    (hpair : Reduction.ofPair? first second = some (.merge merged)) : merged.IsPlain := by
  unfold Reduction.ofPair? at hpair
  split at hpair <;> cases hpair <;> exact ⟨rfl, rfl, rfl⟩

theorem IsPlain.ports_eq {instruction : Instruction} (hplain : instruction.IsPlain) :
    instruction.ports = [] := by
  refine List.eq_nil_iff_forall_not_mem.mpr fun port hport => ?_
  rcases mem_ports_iff.mp hport with hread | hwritten
  · rw [hplain.readPort?_eq] at hread
    cases hread
  · rw [hplain.writtenPort?_eq] at hwritten
    cases hwritten

theorem ports_of_simplify? {instruction simpler : Instruction}
    (hsimplify : instruction.simplify? = some simpler) : instruction.ports = [] := by
  unfold simplify? at hsimplify
  split at hsimplify <;> cases hsimplify <;> rfl

theorem ports_of_isIdle {instruction : Instruction} (hidle : instruction.isIdle = true) :
    instruction.ports = [] := by
  unfold isIdle at hidle
  split at hidle <;> cases hidle <;> rfl

theorem ports_of_ofPair? {first second : Instruction} {reduction : Reduction}
    (hpair : Reduction.ofPair? first second = some reduction) :
    first.ports = [] ∧ second.ports = [] := by
  unfold Reduction.ofPair? at hpair
  split at hpair <;> cases hpair <;> exact ⟨rfl, rfl⟩

theorem readPort?_mapTarget (f : ℕ → ℕ) (instruction : Instruction) :
    (instruction.mapTarget f).readPort? = instruction.readPort? := by
  cases instruction <;> rfl

theorem writtenPort?_mapTarget (f : ℕ → ℕ) (instruction : Instruction) :
    (instruction.mapTarget f).writtenPort? = instruction.writtenPort? := by
  cases instruction <;> rfl

end Instruction

namespace Program

/-- The second program uses nothing that the first one does not. -/
structure Within (code reduced : Program) : Prop where
  length_le : reduced.length ≤ code.length
  exists_read : ∀ instruction ∈ reduced, ∀ port, instruction.readPort? = some port →
    ∃ original ∈ code, original.readPort? = some port
  exists_written : ∀ instruction ∈ reduced, ∀ port, instruction.writtenPort? = some port →
    ∃ original ∈ code, original.writtenPort? = some port
  exists_target : ∀ instruction ∈ reduced, ∀ target ∈ instruction.jumpTarget?,
    ∃ original ∈ code, ∃ old ∈ original.jumpTarget?, target ≤ old

namespace Within

variable {code between reduced : Program}

theorem refl (code : Program) : Within code code where
  length_le := Nat.le_refl _
  exists_read instruction hmem _ hread := ⟨instruction, hmem, hread⟩
  exists_written instruction hmem _ hwritten := ⟨instruction, hmem, hwritten⟩
  exists_target instruction hmem target htarget :=
    ⟨instruction, hmem, target, htarget, Nat.le_refl _⟩

theorem trans (hfirst : Within code between) (hsecond : Within between reduced) :
    Within code reduced where
  length_le := Nat.le_trans hsecond.length_le hfirst.length_le
  exists_read instruction hmem port hread := by
    obtain ⟨middle, hmiddle, hreads⟩ := hsecond.exists_read instruction hmem port hread
    exact hfirst.exists_read middle hmiddle port hreads
  exists_written instruction hmem port hwritten := by
    obtain ⟨middle, hmiddle, hwrites⟩ := hsecond.exists_written instruction hmem port hwritten
    exact hfirst.exists_written middle hmiddle port hwrites
  exists_target instruction hmem target htarget := by
    obtain ⟨middle, hmiddle, between, hbetween, hle⟩ :=
      hsecond.exists_target instruction hmem target htarget
    obtain ⟨original, horiginal, old, hold, hlater⟩ :=
      hfirst.exists_target middle hmiddle between hbetween
    exact ⟨original, horiginal, old, hold, Nat.le_trans hle hlater⟩

/-- Instructions that are plain, or old ones with an earlier target. -/
theorem of_forall (hlength : reduced.length ≤ code.length)
    (hfrom : ∀ instruction ∈ reduced, instruction.IsPlain ∨
      ∃ original ∈ code, ∃ f : ℕ → ℕ, (∀ target, f target ≤ target) ∧
        instruction = original.mapTarget f) : Within code reduced where
  length_le := hlength
  exists_read instruction hmem port hread := by
    rcases hfrom instruction hmem with hplain | ⟨original, horiginal, f, -, rfl⟩
    · rw [hplain.readPort?_eq] at hread
      cases hread
    · rw [Instruction.readPort?_mapTarget] at hread
      exact ⟨original, horiginal, hread⟩
  exists_written instruction hmem port hwritten := by
    rcases hfrom instruction hmem with hplain | ⟨original, horiginal, f, -, rfl⟩
    · rw [hplain.writtenPort?_eq] at hwritten
      cases hwritten
    · rw [Instruction.writtenPort?_mapTarget] at hwritten
      exact ⟨original, horiginal, hwritten⟩
  exists_target instruction hmem target htarget := by
    -- only for targets it matters how they are moved
    rcases hfrom instruction hmem with hplain | ⟨original, horiginal, f, hle, rfl⟩
    · rw [hplain.jumpTarget?_eq] at htarget
      cases htarget
    · rw [Instruction.jumpTarget?_mapTarget] at htarget
      obtain ⟨old, hold, rfl⟩ := Option.map_eq_some_iff.mp htarget
      exact ⟨original, horiginal, old, hold, hle old⟩

theorem exists_port (hwithin : Within code reduced) {instruction : Instruction}
    (hmem : instruction ∈ reduced) {port : Port} (hport : port ∈ instruction.ports) :
    ∃ original ∈ code, port ∈ original.ports := by
  rcases Instruction.mem_ports_iff.mp hport with hread | hwritten
  · obtain ⟨original, horiginal, hsame⟩ := hwithin.exists_read instruction hmem port hread
    exact ⟨original, horiginal, Instruction.mem_ports_iff.mpr (Or.inl hsame)⟩
  · obtain ⟨original, horiginal, hsame⟩ := hwithin.exists_written instruction hmem port hwritten
    exact ⟨original, horiginal, Instruction.mem_ports_iff.mpr (Or.inr hsame)⟩

end Within

variable {code : Program} {position : ℕ}

theorem within_set {instruction : Instruction} (hplain : instruction.IsPlain) :
    Within code (code.set position instruction) := by
  refine .of_forall (List.length_set ..).le fun other hmem => ?_
  rcases List.mem_or_eq_of_mem_set hmem with hold | rfl
  · refine Or.inr ⟨other, hold, id, fun _ => Nat.le_refl _, ?_⟩
    cases other <;> rfl
  · exact Or.inl hplain

theorem within_delete (code : Program) (position : ℕ) : Within code (code.delete position) := by
  refine .of_forall (length_delete_le code position) fun instruction hmem => ?_
  obtain ⟨original, horiginal, rfl⟩ := List.mem_map.mp hmem
  refine Or.inr ⟨original, List.mem_of_mem_eraseIdx horiginal, _, fun target => ?_, rfl⟩
  refine (Nat.mod_le _ _).trans ?_
  split <;> omega

theorem within_wrapTargets (code : Program) : Within code code.wrapTargets := by
  refine .of_forall (List.length_map ..).le fun instruction hmem => ?_
  obtain ⟨original, horiginal, rfl⟩ := List.mem_map.mp hmem
  exact Or.inr ⟨original, horiginal, _, fun target => Nat.mod_le _ _, rfl⟩

theorem within_of_ofPair? {first second : Instruction} {reduction : Reduction}
    (hpair : Reduction.ofPair? first second = some reduction) :
    Within code (reduction.apply code position) := by
  rcases Reduction.eq_merge_or_removeBoth_of_ofPair? hpair with ⟨merged, rfl⟩ | rfl
  · exact (within_set (Instruction.isPlain_of_ofPair? hpair)).trans (within_delete _ (position + 1))
  · exact (within_delete code (position + 1)).trans (within_delete _ position)

/-- A reduction lets a program use no more than before. -/
theorem within_of_at? {relocatable : Bool} {reduction : Reduction}
    (hat : Reduction.at? relocatable code position = some reduction) :
    Within code (reduction.apply code position) := by
  cases Reduction.matches_of_at? hat with
  | simplify hfirst hsimplify => exact within_set (Instruction.isPlain_of_simplify? hsimplify)
  | idle hmoves hfirst hidle => exact within_delete code position
  | pair hmoves hfirst hsecond huntargeted hpair => exact within_of_ofPair? hpair

/-! ## The uses of ports -/

/-- The instructions that read or write a port, in their order. -/
def portUses (code : Program) : Program :=
  code.filter fun instruction => !instruction.ports.isEmpty

theorem portUses_map_mapTarget (f : ℕ → ℕ) (code : Program) :
    portUses (code.map (Instruction.mapTarget f)) = code.portUses := by
  induction code with
  | nil => rfl
  | cons first rest ih =>
      cases first <;> simp_all [portUses, Instruction.mapTarget, Instruction.ports, List.filter_cons]

theorem portUses_set {old new : Instruction} (hcurrent : code[position]? = some old)
    (hold : old.ports = []) (hnew : new.ports = []) :
    portUses (code.set position new) = code.portUses := by
  obtain ⟨hposition, hget⟩ := List.getElem?_eq_some_iff.mp hcurrent
  obtain ⟨before, after, hcode, -, hset⟩ := @List.exists_of_set _ _ new _ hposition
  rw [hset, hcode, hget]
  simp [portUses, hold, hnew]

theorem portUses_delete {old : Instruction} (hcurrent : code[position]? = some old)
    (hold : old.ports = []) : portUses (code.delete position) = code.portUses := by
  obtain ⟨hposition, hget⟩ := List.getElem?_eq_some_iff.mp hcurrent
  obtain ⟨before, after, hcode, rfl, -⟩ := @List.exists_of_set _ _ old _ hposition
  rw [hget] at hcode
  rw [delete, portUses_map_mapTarget, hcode, List.eraseIdx_append_of_length_le (Nat.le_refl _),
    Nat.sub_self]
  simp [portUses, hold]

/-- A reduction keeps every instruction that uses a port. -/
theorem portUses_of_at? {relocatable : Bool} {reduction : Reduction}
    (hat : Reduction.at? relocatable code position = some reduction) :
    portUses (reduction.apply code position) = code.portUses := by
  cases Reduction.matches_of_at? hat with
  | simplify hfirst hsimplify =>
      exact portUses_set hfirst (Instruction.ports_of_simplify? hsimplify)
        (Instruction.isPlain_of_simplify? hsimplify).ports_eq
  | idle hmoves hfirst hidle =>
      exact portUses_delete hfirst (Instruction.ports_of_isIdle hidle)
  | @pair first second _ hmoves hfirst hsecond huntargeted hpair =>
      -- no rule for pairs is about an instruction that uses a port
      obtain ⟨hports, hportsSecond⟩ := Instruction.ports_of_ofPair? hpair
      rcases Reduction.eq_merge_or_removeBoth_of_ofPair? hpair with ⟨merged, rfl⟩ | rfl
      · have hnext : (code.set position merged)[position + 1]? = some second := by
          rw [List.getElem?_set_ne (Nat.ne_of_lt (Nat.lt_succ_self position)), hsecond]
        exact (portUses_delete hnext hportsSecond).trans
          (portUses_set hfirst hports (Instruction.isPlain_of_ofPair? hpair).ports_eq)
      · -- the first of the pair stays where it is when the second is gone
        obtain ⟨kept, hkept, hnone⟩ : ∃ kept, (code.delete (position + 1))[position]? = some kept ∧
            kept.ports = [] := by
          rw [delete, List.getElem?_map, List.getElem?_eraseIdx_of_lt (Nat.lt_succ_self position),
            hfirst]
          exact ⟨_, rfl, by cases first <;> exact hports⟩
        exact (portUses_delete hkept hnone).trans (portUses_delete hsecond hportsSecond)

/-! ## Sweeps -/

/-- An optimised program uses the ports with the same instructions in the same order. -/
theorem portUses_optimize (code : Program) : code.optimize.portUses = code.portUses := by
  have hkeeps : Reduction.Keeps (!code.any Instruction.isRelativeJump)
      fun between => between.portUses = code.portUses :=
    fun _ _ _ hat hbefore => (portUses_of_at? hat).trans hbefore
  exact hkeeps.sweepAll (portUses_map_mapTarget _ code)

theorem mem_optimize_of_mem_ports {instruction : Instruction} (hmem : instruction ∈ code)
    {port : Port} (hport : port ∈ instruction.ports) : instruction ∈ code.optimize := by
  have huses : instruction ∈ code.portUses := List.mem_filter.mpr ⟨hmem, by
    simpa using List.ne_nil_of_mem hport⟩
  rw [← portUses_optimize] at huses
  exact (List.mem_filter.mp huses).1

theorem within_sweepAll (relocatable : Bool) (code : Program) :
    Within code (sweepAll relocatable code) := by
  have hkeeps : Reduction.Keeps relocatable (Within code) :=
    fun _ _ _ hat hbefore => hbefore.trans (within_of_at? hat)
  exact hkeeps.sweepAll (.refl code)

/-- An optimised program uses nothing that the original does not. -/
theorem within_optimize (code : Program) : Within code code.optimize :=
  (within_wrapTargets code).trans (within_sweepAll _ code.wrapTargets)

theorem optimize_nil : optimize [] = [] :=
  List.eq_nil_of_length_eq_zero (Nat.le_zero.mp (within_optimize []).length_le)

/-- The jumps of an optimised program lead to indices of the original. -/
theorem target_lt_of_mem_optimize {instruction : Instruction} (hmem : instruction ∈ code.optimize)
    {target : ℕ} (htarget : target ∈ instruction.jumpTarget?) : target < code.length := by
  obtain ⟨original, horiginal, old, hold, hle⟩ :=
    (within_sweepAll _ code.wrapTargets).exists_target instruction hmem target htarget
  obtain ⟨unwrapped, hunwrapped, rfl⟩ := List.mem_map.mp horiginal
  rw [Instruction.jumpTarget?_mapTarget] at hold
  obtain ⟨first, -, rfl⟩ := Option.map_eq_some_iff.mp hold
  exact hle.trans_lt (Nat.mod_lt _ (List.length_pos_of_mem hunwrapped))

theorem fitsWord_of_mem_optimize (hlength : code.length ≤ 2 ^ 64) :
    ∀ instruction ∈ code.optimize, instruction.FitsWord :=
  fun _ hmem _ htarget => (target_lt_of_mem_optimize hmem htarget).trans_le hlength

end Program

end NodeGrid

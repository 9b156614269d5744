import NodeGrid.Proofs.Peephole.Effects

/-!
# Rewriting a program in place, and deleting an instruction

Everything the optimiser does to a program comes down to three kinds of rewrites:

* an instruction becomes another with the same effect; the machines of both
  programs take the same steps (`refines_of_step_eq`);
* two instructions become two others that compute the same together
  (`refines_set_pair`).  The machines differ only between the two, and nothing
  else happens there, because no jump leads into the pair;
* an instruction that does nothing is deleted (`refines_delete`).  The original
  machine is ahead by the deleted instruction whenever it stands on it.

`IsRelocatable` is what the last two need to know of the jumps of a program.
-/

namespace NodeGrid

open List (Forall₂)

/-! ## Steps of a machine -/

namespace Machine

variable {code other : Program} {machine counterpart : Machine} {instruction : Instruction}

theorem step_of_getElem? (hcurrent : code[machine.ip]? = some instruction) :
    machine.step code =
      ((instruction.effect machine.ip machine.data).events.map machine.moment,
        machine.apply code.length (instruction.effect machine.ip machine.data)) := by
  simp only [step, hcurrent]

theorem step_of_computes {compute : Data → Data}
    (hcurrent : code[machine.ip]? = some instruction) (hcomputes : instruction.Computes compute) :
    machine.step code = ([], ⟨compute machine.data, (machine.ip + 1) % code.length,
      machine.executed + 1⟩) := by
  rw [step_of_getElem? hcurrent, hcomputes]
  rfl

/-- The same events with the same data, after no more instructions. -/
theorem matches_events (hdata : counterpart.data = machine.data)
    (hexecuted : counterpart.executed ≤ machine.executed) (events : List PortEvent) :
    Forall₂ Moment.Matches (events.map machine.moment) (events.map counterpart.moment) := by
  rw [List.forall₂_map_left_iff, List.forall₂_map_right_iff, List.forall₂_same]
  intro event _
  exact ⟨rfl, congrArg Data.acc hdata, congrArg Data.bak hdata, hexecuted⟩

theorem trace_eq_of_step_eq (hstep : ∀ machine : Machine, machine.step other = machine.step code)
    (machine : Machine) (steps : ℕ) : machine.trace other steps = machine.trace code steps := by
  induction steps generalizing machine with
  | zero => rfl
  | succ steps ih => rw [trace, trace, hstep, ih]

theorem refines_of_step_eq
    (hstep : ∀ machine : Machine, machine.step other = machine.step code) :
    Refines code other where
  exists_optimized := by
    intro data steps
    refine ⟨steps, ?_⟩
    rw [trace_eq_of_step_eq hstep]
    exact List.forall₂_same.mpr fun moment _ => .refl moment
  exists_original := by
    intro data steps
    refine ⟨steps, ?_⟩
    rw [trace_eq_of_step_eq hstep]
    exact List.forall₂_same.mpr fun moment _ => .refl moment

end Machine

namespace Program

variable {code : Program}

/-! ## Instructions with the same effect -/

theorem refines_set {position : ℕ} {instruction simpler : Instruction}
    (hcurrent : code[position]? = some instruction)
    (heffect : ∀ ip data, simpler.effect ip data = instruction.effect ip data) :
    Refines code (code.set position simpler) := by
  apply Machine.refines_of_step_eq
  intro machine
  have hposition : position < code.length := (List.getElem?_eq_some_iff.mp hcurrent).1
  by_cases hip : position = machine.ip
  · subst hip
    rw [Machine.step_of_getElem? (List.getElem?_set_self hposition),
      Machine.step_of_getElem? hcurrent, heffect, List.length_set]
  · simp only [Machine.step, List.getElem?_set_ne hip, List.length_set]

/-- A machine wraps the target of a jump by itself. -/
theorem refines_wrapTargets (code : Program) : Refines code code.wrapTargets := by
  apply Machine.refines_of_step_eq
  intro machine
  have hlength : code.wrapTargets.length = code.length := List.length_map ..
  -- an index is inside the program or not, whether targets are wrapped or not
  have hget : code.wrapTargets[machine.ip]? =
      code[machine.ip]?.map (Instruction.mapTarget fun target => target % code.length) :=
    List.getElem?_map ..
  cases hcurrent : code[machine.ip]? with
  | none =>
      rw [hcurrent, Option.map_none] at hget
      simp only [Machine.step, hget, hcurrent]
  | some instruction =>
      rw [hcurrent, Option.map_some] at hget
      rw [Machine.step_of_getElem? hget, Machine.step_of_getElem? hcurrent, hlength]
      cases instruction with
      | plain operation => rfl
      | unary operation source => rfl
      | move source target => rfl
      | jump condition target =>
          simp only [Instruction.mapTarget, Instruction.effect, Machine.apply]
          split
          · simp only [Option.getD_some, Nat.mod_mod]
          · rfl

/-! ## Relocatable programs -/

/-- Every jump of the program leads to one of its positions, and none is relative
to its own. -/
structure IsRelocatable (code : Program) : Prop where
  absolute : ∀ instruction ∈ code, instruction.isRelativeJump = false
  target_lt : ∀ instruction ∈ code, ∀ target, instruction.jumpTarget? = some target →
    target < code.length

namespace IsRelocatable

/-- The target of a jump that is taken needs no wrapping. -/
theorem target_lt_of_effect (hrelocatable : code.IsRelocatable) {position ip target : ℕ}
    {instruction : Instruction} {data : Data} (hcurrent : code[position]? = some instruction)
    (heffect : (instruction.effect ip data).target = some target) :
    instruction.jumpTarget? = some target ∧ target < code.length := by
  have hmem := List.mem_of_getElem? hcurrent
  have htarget := Instruction.jumpTarget?_of_effect (hrelocatable.absolute _ hmem) heffect
  exact ⟨htarget, hrelocatable.target_lt _ hmem _ htarget⟩

theorem wrapTargets (habsolute : code.any Instruction.isRelativeJump = false) :
    code.wrapTargets.IsRelocatable where
  absolute := by
    intro instruction hmem
    obtain ⟨original, horiginal, rfl⟩ := List.mem_map.mp hmem
    rw [Instruction.isRelativeJump_mapTarget]
    exact Bool.eq_false_iff.mpr fun hjump =>
      Bool.eq_false_iff.mp habsolute (List.any_eq_true.mpr ⟨original, horiginal, hjump⟩)
  target_lt := by
    intro instruction hmem target htarget
    obtain ⟨original, horiginal, rfl⟩ := List.mem_map.mp hmem
    rw [Instruction.jumpTarget?_mapTarget] at htarget
    obtain ⟨old, -, rfl⟩ := Option.map_eq_some_iff.mp htarget
    have hlength : code.wrapTargets.length = code.length := List.length_map ..
    rw [hlength]
    exact Nat.mod_lt _ (List.length_pos_of_mem horiginal)

/-- An instruction that does not jump may stand anywhere. -/
theorem set (hrelocatable : code.IsRelocatable) (position : ℕ) {instruction : Instruction}
    (hplain : instruction.isRelativeJump = false ∧ instruction.jumpTarget? = none) :
    IsRelocatable (code.set position instruction) where
  absolute := by
    intro other hmem
    rcases List.mem_or_eq_of_mem_set hmem with hold | rfl
    · exact hrelocatable.absolute other hold
    · exact hplain.1
  target_lt := by
    intro other hmem target htarget
    rw [List.length_set]
    rcases List.mem_or_eq_of_mem_set hmem with hold | rfl
    · exact hrelocatable.target_lt other hold target htarget
    · rw [hplain.2] at htarget
      cases htarget

theorem delete (hrelocatable : code.IsRelocatable) (position : ℕ) :
    (code.delete position).IsRelocatable where
  absolute := by
    intro instruction hmem
    obtain ⟨original, horiginal, rfl⟩ := List.mem_map.mp hmem
    rw [Instruction.isRelativeJump_mapTarget]
    exact hrelocatable.absolute original (List.mem_of_mem_eraseIdx horiginal)
  target_lt := by
    intro instruction hmem target htarget
    obtain ⟨original, horiginal, rfl⟩ := List.mem_map.mp hmem
    rw [Instruction.jumpTarget?_mapTarget] at htarget
    obtain ⟨old, -, rfl⟩ := Option.map_eq_some_iff.mp htarget
    simp only [Program.delete, List.length_map]
    exact Nat.mod_lt _ (List.length_pos_of_mem horiginal)

end IsRelocatable

/-! ## Pairs that compute the same -/

/-- The machines of two programs that differ in the pair at `position`.  In the
middle of the pair, each of them has computed by its own first instruction. -/
structure AgreeAround (position : ℕ) (before other : Data → Data)
    (machine counterpart : Machine) : Prop where
  ip_eq : counterpart.ip = machine.ip
  executed_eq : counterpart.executed = machine.executed
  data_eq : machine.ip ≠ position + 1 → counterpart.data = machine.data
  data_between : machine.ip = position + 1 →
    ∃ data, machine.data = before data ∧ counterpart.data = other data

theorem succ_mod_ne {ip position length : ℕ} (hip : ip < length) (hne : ip ≠ position) :
    (ip + 1) % length ≠ position + 1 := by
  rcases Nat.lt_or_ge (ip + 1) length with hnext | hlast
  · rw [Nat.mod_eq_of_lt hnext]
    omega
  · have hwrap : ip + 1 = length := by omega
    rw [hwrap, Nat.mod_self]
    omega

/-- The middle of a pair is reached only through its first instruction, unless some
jump leads there. -/
theorem IsRelocatable.apply_ip_ne (hrelocatable : code.IsRelocatable) {position : ℕ}
    {machine : Machine} {instruction : Instruction}
    (huntargeted : code.isTarget (position + 1) = false)
    (hcurrent : code[machine.ip]? = some instruction) (hip : machine.ip ≠ position) :
    (machine.apply code.length (instruction.effect machine.ip machine.data)).ip ≠
      position + 1 := by
  have hlt : machine.ip < code.length := (List.getElem?_eq_some_iff.mp hcurrent).1
  simp only [Machine.apply]
  cases heffect : (instruction.effect machine.ip machine.data).target with
  | none =>
      rw [Option.getD_none]
      exact succ_mod_ne hlt hip
  | some target =>
      obtain ⟨htarget, htargetLt⟩ := hrelocatable.target_lt_of_effect hcurrent heffect
      -- a jump into the pair would make its middle a target
      rw [Option.getD_some, Nat.mod_eq_of_lt htargetLt]
      rintro rfl
      refine Bool.eq_false_iff.mp huntargeted (List.any_eq_true.mpr ⟨instruction, ?_, ?_⟩)
      · exact List.mem_of_getElem? hcurrent
      · rw [htarget]
        exact beq_self_eq_true _

/-- Outside the pair, both machines execute the same instruction. -/
theorem AgreeAround.step_outside {other : Program} {position : ℕ} {before before' : Data → Data}
    {machine counterpart : Machine} (hagree : AgreeAround position before before' machine counterpart)
    (hrelocatable : code.IsRelocatable) (huntargeted : code.isTarget (position + 1) = false)
    (hlength : other.length = code.length) (hget : other[machine.ip]? = code[machine.ip]?)
    (hfirst : machine.ip ≠ position) (hsecond : machine.ip ≠ position + 1) :
    Forall₂ Moment.Matches (machine.step code).1 (counterpart.step other).1 ∧
      AgreeAround position before before' (machine.step code).2 (counterpart.step other).2 := by
  have hdata := hagree.data_eq hsecond
  cases hcurrent : code[machine.ip]? with
  | none =>
      rw [hcurrent] at hget
      simp only [Machine.step, hagree.ip_eq, hcurrent, hget]
      exact ⟨.nil, hagree⟩
  | some instruction =>
      rw [hcurrent] at hget
      -- nothing jumps into the middle of the pair
      have hne := hrelocatable.apply_ip_ne huntargeted hcurrent hfirst
      rw [Machine.step_of_getElem? hcurrent, Machine.step_of_getElem? (hagree.ip_eq ▸ hget),
        hlength, hagree.ip_eq, hdata]
      refine ⟨Machine.matches_events hdata (Nat.le_of_eq hagree.executed_eq) _, ?_, ?_,
        fun _ => rfl, ?_⟩
      · simp only [Machine.apply, hagree.ip_eq]
      · simp only [Machine.apply, hagree.executed_eq]
      · exact fun hip => absurd hip hne

/-- A pair may be replaced in place by one that computes the same. -/
theorem refines_set_pair (hrelocatable : code.IsRelocatable) {position : ℕ}
    {first second left right : Instruction} {compute : Data → Data}
    (hfirst : code[position]? = some first) (hsecond : code[position + 1]? = some second)
    (huntargeted : code.isTarget (position + 1) = false)
    (hpair : Instruction.PairComputes first second compute)
    (hother : Instruction.PairComputes left right compute) :
    Refines code ((code.set position left).set (position + 1) right) := by
  -- `before` and `before'` are what the machines have computed in the middle of the pair
  obtain ⟨before, after, hbefore, hafter, hcompute⟩ := hpair
  obtain ⟨before', after', hbefore', hafter', hcompute'⟩ := hother
  have hroom : position + 1 < code.length := (List.getElem?_eq_some_iff.mp hsecond).1
  set other := (code.set position left).set (position + 1) right with hotherDef
  have hlength : other.length = code.length := by rw [hotherDef, List.length_set, List.length_set]
  have hleft : other[position]? = some left := by
    rw [hotherDef, List.getElem?_set_ne (by omega), List.getElem?_set_self (by omega)]
  have hright : other[position + 1]? = some right := by
    rw [hotherDef, List.getElem?_set_self (by rw [List.length_set]; exact hroom)]
  suffices hsimulation : Simulation code other (AgreeAround position before before') fun _ => 0 from
    hsimulation.refines
  refine ⟨?_, ?_⟩
  · exact fun data => ⟨rfl, rfl, fun _ => rfl, fun hip => by cases hip⟩
  intro machine counterpart hagree
  refine Or.inl ?_
  -- the machines stand at the first instruction, at the second, or outside the pair
  by_cases hatFirst : machine.ip = position
  · have hdata := hagree.data_eq (by omega)
    rw [Machine.step_of_computes (hatFirst ▸ hfirst) hbefore,
      Machine.step_of_computes (hagree.ip_eq ▸ hatFirst ▸ hleft) hbefore', hlength, hagree.ip_eq,
      hatFirst, Nat.mod_eq_of_lt hroom, hagree.executed_eq, hdata]
    exact ⟨.nil, rfl, rfl, fun hne => absurd rfl hne, fun _ => ⟨machine.data, rfl, rfl⟩⟩
  by_cases hatSecond : machine.ip = position + 1
  · obtain ⟨data, hdata, hdata'⟩ := hagree.data_between hatSecond
    rw [Machine.step_of_computes (hatSecond ▸ hsecond) hafter,
      Machine.step_of_computes (hagree.ip_eq ▸ hatSecond ▸ hright) hafter', hlength, hagree.ip_eq,
      hatSecond, hagree.executed_eq, hdata, hdata', hcompute, hcompute']
    have hleaves : (position + 1 + 1) % code.length ≠ position + 1 :=
      succ_mod_ne hroom (by omega)
    exact ⟨.nil, rfl, rfl, fun _ => rfl, fun hip => absurd hip hleaves⟩
  · have hget : other[machine.ip]? = code[machine.ip]? := by
      rw [hotherDef, List.getElem?_set_ne (Ne.symm hatSecond),
        List.getElem?_set_ne (Ne.symm hatFirst)]
    exact hagree.step_outside hrelocatable huntargeted hlength hget hatFirst hatSecond

/-! ## Deleting an instruction -/

/-- Where a position of a program leads when the instruction at `position` is gone
and `length` are left. -/
def shifted (position length ip : ℕ) : ℕ :=
  (if position < ip then ip - 1 else ip) % length

section Shifted

variable {position length ip : ℕ}

theorem succ_mod_ne_self (hposition : position ≤ length) (hlength : length ≠ 0) :
    (position + 1) % (length + 1) ≠ position := by
  rcases Nat.lt_or_ge position length with hnext | hlast
  · rw [Nat.mod_eq_of_lt (by omega)]
    omega
  · obtain rfl : position = length := by omega
    rw [Nat.mod_self]
    exact Ne.symm hlength

/-- The deleted instruction leads to its successor. -/
theorem shifted_succ_self (hposition : position ≤ length) :
    shifted position length ((position + 1) % (length + 1)) = shifted position length position := by
  rcases Nat.lt_or_ge position length with hnext | hlast
  · rw [Nat.mod_eq_of_lt (by omega : position + 1 < length + 1)]
    simp [shifted]
  · obtain rfl : position = length := by omega
    rw [Nat.mod_self]
    simp [shifted]

/-- All other instructions keep their successors. -/
theorem shifted_succ (hposition : position ≤ length) (hip : ip ≤ length) (hne : ip ≠ position) :
    shifted position length ((ip + 1) % (length + 1)) =
      (shifted position length ip + 1) % length := by
  unfold shifted
  rw [Nat.mod_add_mod]
  rcases Nat.lt_or_ge ip length with hnext | hlast
  · rw [Nat.mod_eq_of_lt (by omega : ip + 1 < length + 1)]
    congr 1
    split <;> split <;> omega
  -- the last instruction is followed by the first
  · obtain rfl : ip = length := by omega
    have hlt : position < ip := by omega
    rw [Nat.mod_self, if_neg (Nat.not_lt_zero _), if_pos hlt, Nat.sub_add_cancel (by omega),
      Nat.mod_self, Nat.zero_mod]

theorem getElem?_delete {code : Program} {instruction : Instruction}
    (hcurrent : code[ip]? = some instruction) (hlength : code.length = length + 1)
    (hposition : position ≤ length) (hne : ip ≠ position) :
    (code.delete position)[shifted position length ip]? =
      some (instruction.mapTarget (shifted position length)) := by
  have hip : ip < code.length := (List.getElem?_eq_some_iff.mp hcurrent).1
  have hrest : (code.eraseIdx position).length = length := by
    rw [List.length_eraseIdx_of_lt (by omega), hlength, Nat.add_sub_cancel]
  have hget : (code.eraseIdx position)[shifted position length ip]? = some instruction := by
    unfold shifted
    rw [List.getElem?_eraseIdx]
    rcases Nat.lt_or_gt_of_ne hne with hbefore | hafter
    · rw [if_neg (by omega : ¬ position < ip), Nat.mod_eq_of_lt (by omega), if_pos hbefore,
        hcurrent]
    · rw [if_pos hafter, Nat.mod_eq_of_lt (by omega), if_neg (by omega),
        Nat.sub_add_cancel (by omega), hcurrent]
  simp only [delete, List.getElem?_map, hrest, hget, Option.map_some]
  rfl

end Shifted

/-- The machine of a program and that of the program without the instruction at
`position`, of which `length` are left. -/
structure AgreeWithout (position length : ℕ) (machine counterpart : Machine) : Prop where
  ip_le : machine.ip ≤ length
  ip_eq : counterpart.ip = shifted position length machine.ip
  executed_le : counterpart.executed ≤ machine.executed
  data_eq : counterpart.data = machine.data

/-- An idle instruction takes the original closer to its counterpart. -/
theorem AgreeWithout.skip {position length : ℕ} {machine counterpart : Machine}
    (hagree : AgreeWithout position length machine counterpart) (hip : machine.ip = position) :
    AgreeWithout position length
      ⟨machine.data, (position + 1) % (length + 1), machine.executed + 1⟩ counterpart where
  ip_le := Nat.le_of_lt_succ (Nat.mod_lt _ (Nat.succ_pos _))
  ip_eq := by
    rw [hagree.ip_eq, hip, shifted_succ_self (hip ▸ hagree.ip_le)]
  executed_le := Nat.le_succ_of_le hagree.executed_le
  data_eq := hagree.data_eq

/-- Both machines execute the same instruction, up to where it jumps to. -/
theorem AgreeWithout.apply {position length : ℕ} {machine counterpart : Machine}
    (hagree : AgreeWithout position length machine counterpart) (hposition : position ≤ length)
    (hne : machine.ip ≠ position) {effect : Effect}
    (htarget : ∀ target, effect.target = some target → target ≤ length) :
    AgreeWithout position length (machine.apply (length + 1) effect)
      (counterpart.apply length
        { effect with target := effect.target.map (shifted position length) }) where
  ip_le := Nat.le_of_lt_succ (Nat.mod_lt _ (Nat.succ_pos _))
  ip_eq := by
    simp only [Machine.apply]
    cases heffect : effect.target with
    | none =>
        rw [Option.map_none, Option.getD_none, Option.getD_none, hagree.ip_eq,
          shifted_succ hposition hagree.ip_le hne]
    | some target =>
        -- a target may be the end of the program, which is its beginning
        have hlt : target < length + 1 := Nat.lt_succ_of_le (htarget target heffect)
        rw [Option.map_some, Option.getD_some, Option.getD_some, Nat.mod_eq_of_lt hlt]
        exact Nat.mod_mod _ _
  executed_le := Nat.succ_le_succ hagree.executed_le
  data_eq := rfl

/-- An instruction that does nothing may be deleted. -/
theorem refines_delete (hrelocatable : code.IsRelocatable) {position : ℕ}
    {instruction : Instruction} (hcurrent : code[position]? = some instruction)
    (hidle : instruction.Computes id) : Refines code (code.delete position) := by
  have hposition : position < code.length := (List.getElem?_eq_some_iff.mp hcurrent).1
  obtain ⟨length, hlength⟩ : ∃ length, code.length = length + 1 :=
    ⟨code.length - 1, by omega⟩
  have hrest : (code.delete position).length = length := by
    have := length_delete hposition
    omega
  -- the original is one step behind while it stands on the deleted instruction
  suffices hsimulation : Simulation code (code.delete position) (AgreeWithout position length)
      fun machine => if machine.ip = position then 1 else 0 from hsimulation.refines
  refine ⟨?_, ?_⟩
  · exact fun data => ⟨Nat.zero_le _, by simp [Machine.start, shifted], Nat.le_refl _, rfl⟩
  intro machine counterpart hagree
  by_cases hip : machine.ip = position
  · have hskip := hagree.skip hip
    rw [Machine.step_of_computes (hip ▸ hcurrent) hidle, hip, hlength]
    by_cases hempty : length = 0
    -- nothing is left, and the counterpart does nothing either
    · have hnil : code.delete position = [] := List.eq_nil_of_length_eq_zero (hrest.trans hempty)
      refine Or.inl ?_
      rw [hnil]
      exact ⟨.nil, hskip⟩
    · refine Or.inr ⟨rfl, hskip, ?_⟩
      have hleaves := succ_mod_ne_self (by omega : position ≤ length) hempty
      simp only [if_neg hleaves, if_true]
      exact Nat.zero_lt_one
  -- any other instruction is executed by both machines
  · have hip_lt : machine.ip < code.length := hlength ▸ Nat.lt_succ_of_le hagree.ip_le
    have hget : code[machine.ip]? = some code[machine.ip] := List.getElem?_eq_getElem hip_lt
    have hdeleted := getElem?_delete hget hlength (by omega) hip
    rw [← hagree.ip_eq] at hdeleted
    have habsolute := hrelocatable.absolute _ (List.getElem_mem hip_lt)
    refine Or.inl ?_
    rw [Machine.step_of_getElem? hget, Machine.step_of_getElem? hdeleted,
      Instruction.effect_mapTarget habsolute, hagree.data_eq,
      Instruction.effect_eq_of_absolute habsolute counterpart.ip machine.ip, hlength, hrest]
    refine ⟨Machine.matches_events hagree.data_eq hagree.executed_le _, ?_⟩
    apply hagree.apply (by omega) hip
    intro target htarget
    have := (hrelocatable.target_lt_of_effect hget htarget).2
    omega

end Program

end NodeGrid

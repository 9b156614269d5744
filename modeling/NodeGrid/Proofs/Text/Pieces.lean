import NodeGrid.Text.Blank
import Mathlib.Data.List.DropRight
import Mathlib.Data.List.Forall2
import Mathlib.Data.Nat.Notation

/-!
# Pieces of a text and the blanks around them

A text that is cut at a separator can grow at either end: what has no separator in it joins
the first piece (`exists_splitOn_append`) or the last one (`exists_append_splitOn`).

Blanks around a text are those that `trim` takes away (`Pads`, `pads_trim`).  So pieces
without the blanks around them are the same whether the blanks around the whole text are
taken away first or not (`map_trim_splitOn_trim`).
-/

namespace NodeGrid.Text

/-! ## Cutting at a separator -/

section Pieces

variable {separator : Char}

/-- What is put in front of a text is put in front of its first piece. -/
theorem exists_splitOn_append (separator : Char) (rest : List Char) : ∃ first others,
    first <+: rest ∧ separator ∉ first ∧ ∀ text, separator ∉ text →
      (text ++ rest).splitOn separator = (text ++ first) :: others := by
  by_cases hmem : separator ∈ rest
  · obtain ⟨first, others, rfl, hfirst⟩ := List.eq_append_cons_of_mem hmem
    refine ⟨first, others.splitOn separator, List.prefix_append _ _, hfirst, fun text htext => ?_⟩
    rw [← List.append_assoc,
      List.splitOn_append_cons_self_of_not_mem (List.not_mem_append htext hfirst)]
  · refine ⟨rest, [], List.prefix_rfl, hmem, fun text htext => ?_⟩
    exact List.splitOn_eq_singleton (List.not_mem_append htext hmem)

/-- What is put behind a text is put behind its last piece. -/
theorem exists_append_splitOn (separator : Char) (start : List Char) : ∃ others last,
    ∀ text, separator ∉ text → (start ++ text).splitOn separator = others ++ [last ++ text] := by
  by_cases hmem : separator ∈ start
  · obtain ⟨last, others, hreverse, hlast⟩ :=
      List.eq_append_cons_of_mem (List.mem_reverse.mpr hmem)
    have hstart : start = others.reverse ++ separator :: last.reverse := by
      rw [← List.reverse_reverse start, hreverse]
      simp
    refine ⟨others.reverse.splitOn separator, last.reverse, fun text htext => ?_⟩
    have hpiece : separator ∉ last.reverse ++ text :=
      List.not_mem_append (mt List.mem_reverse.mp hlast) htext
    rw [hstart, List.append_assoc, List.cons_append, List.splitOn_append_cons_self,
      List.splitOn_eq_singleton hpiece]
  · refine ⟨[], start, fun text htext => ?_⟩
    exact List.splitOn_eq_singleton (List.not_mem_append hmem htext)

end Pieces

/-! ## Blanks around a text -/

/-- There is nothing but blanks in the text. -/
def IsBlank (text : List Char) : Prop := ∀ c ∈ text, isBlank c

/-- The text is the core with blanks around it. -/
def Pads (core text : List Char) : Prop :=
  ∃ left right, IsBlank left ∧ IsBlank right ∧ text = left ++ core ++ right

section Blanks

variable {core left right text : List Char}

theorem trimEnd_eq_rdropWhile (text : List Char) : trimEnd text = text.rdropWhile isBlank := rfl

theorem trim_append_left (hleft : IsBlank left) (text : List Char) :
    trim (left ++ text) = trim text := by
  rw [trim, trim, trimStart, trimStart, List.dropWhile_append_of_pos hleft]

theorem trimEnd_append_right (hright : IsBlank right) (text : List Char) :
    trimEnd (text ++ right) = trimEnd text := by
  have hreverse : ∀ c ∈ right.reverse, isBlank c := fun c hmem =>
    hright c (List.mem_reverse.mp hmem)
  rw [trimEnd, trimEnd, trimStart, trimStart, List.reverse_append,
    List.dropWhile_append_of_pos hreverse]

theorem trim_append_right (hright : IsBlank right) (text : List Char) :
    trim (text ++ right) = trim text := by
  rw [trim, trim, trimStart, trimStart, List.dropWhile_append]
  split
  · rename_i hblank
    rw [List.dropWhile_eq_nil_iff.mpr hright, List.isEmpty_iff.mp hblank]
  · exact trimEnd_append_right hright _

theorem pads_trim (text : List Char) : Pads (trim text) text := by
  refine ⟨text.takeWhile isBlank, (trimStart text).rtakeWhile isBlank,
    fun c => List.mem_takeWhile_imp, fun c => List.mem_rtakeWhile_imp, ?_⟩
  calc text = text.takeWhile isBlank ++ trimStart text := List.takeWhile_append_dropWhile.symm
    _ = text.takeWhile isBlank ++
          ((trimStart text).rdropWhile isBlank ++ (trimStart text).rtakeWhile isBlank) := by
        rw [List.rdropWhile_append_rtakeWhile]
    _ = text.takeWhile isBlank ++ trim text ++ (trimStart text).rtakeWhile isBlank :=
        (List.append_assoc _ _ _).symm

/-- A text without blanks is all that is left of it between blanks. -/
theorem Pads.trim_eq (hpads : Pads core text) (hcore : ∀ c ∈ core, isBlank c = false) :
    trim text = core := by
  obtain ⟨left, right, hleft, hright, rfl⟩ := hpads
  have hstart : trimStart core = core := by
    cases core with
    | nil => rfl
    | cons c rest => exact List.dropWhile_cons_of_neg (by simp [hcore c List.mem_cons_self])
  have hend : trimEnd core = core := by
    rw [trimEnd_eq_rdropWhile, List.rdropWhile_eq_self_iff]
    intro hne
    simp [hcore _ (List.getLast_mem hne)]
  rw [trim_append_right hright, trim_append_left hleft, trim, hstart, hend]

/-- What is said of the text without the blanks around it is said of some core of it. -/
theorem exists_pads_iff {isCore : List Char → Prop}
    (hcore : ∀ core, isCore core → ∀ c ∈ core, isBlank c = false) :
    (∃ core, Pads core text ∧ isCore core) ↔ isCore (trim text) := by
  constructor
  · rintro ⟨core, hpads, hisCore⟩
    rwa [hpads.trim_eq (hcore core hisCore)]
  · intro htrim
    exact ⟨trim text, pads_trim text, htrim⟩

theorem trim_eq_nil_iff : trim text = [] ↔ IsBlank text := by
  constructor
  · intro hnil
    obtain ⟨left, right, hleft, hright, htext⟩ := pads_trim text
    rw [hnil, List.append_nil] at htext
    rw [htext]
    exact fun c hmem => (List.mem_append.mp hmem).elim (hleft c) (hright c)
  · intro hblank
    exact Pads.trim_eq ⟨text, [], hblank, by simp [IsBlank], by simp⟩ (by simp)

theorem IsBlank.not_mem {c : Char} (hblank : IsBlank text) (hc : isBlank c = false) : c ∉ text :=
  fun hmem => by simp [hblank c hmem] at hc

/-- Blanks around a text do not matter to what its pieces hold between blanks. -/
theorem map_trim_splitOn_trim {separator : Char} (hseparator : isBlank separator = false)
    (text : List Char) :
    ((trim text).splitOn separator).map trim = (text.splitOn separator).map trim := by
  obtain ⟨left, right, hleft, hright, htext⟩ := pads_trim text
  generalize trim text = core at htext
  subst htext
  have hnil : separator ∉ ([] : List Char) := List.not_mem_nil
  obtain ⟨first, others, -, -, hfront⟩ := exists_splitOn_append separator core
  obtain ⟨earlier, last, hback⟩ := exists_append_splitOn separator (left ++ core)
  have hend := hback [] hnil
  rw [List.append_nil, List.append_nil] at hend
  calc (core.splitOn separator).map trim
      = ((left ++ core).splitOn separator).map trim := by
        have hcore : core.splitOn separator = first :: others := hfront [] hnil
        rw [hcore, hfront left (hleft.not_mem hseparator), List.map_cons, List.map_cons,
          trim_append_left hleft]
    _ = ((left ++ core ++ right).splitOn separator).map trim := by
        rw [hend, hback right (hright.not_mem hseparator), List.map_append, List.map_append,
          List.map_singleton, List.map_singleton, trim_append_right hright]

end Blanks

end NodeGrid.Text

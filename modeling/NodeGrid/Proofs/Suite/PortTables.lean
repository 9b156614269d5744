import NodeGrid.Suite
import Mathlib.Data.List.Induction
import Mathlib.Data.Nat.Notation
import Mathlib.Order.Nat

/-!
# Tables of values by port

A table has its ports in ascending order, and values that are added to a port only change
what is found there (`PortTable.Ascending.append`, `PortTable.find?_append`).

So what has been added to an empty table piece by piece can be read off the pieces: the
ports are those that occur, and the values of a port are its pieces one after the other
(`PortTable.Collects`, `PortTable.collects_foldl`).
-/

namespace NodeGrid.PortTable

variable {table : PortTable} {port other : ℕ} {values : List Int64}

/-- The ports ascend. -/
def Ascending (table : PortTable) : Prop := (table.entries.map Prod.fst).Pairwise (· < ·)

/-! ## Changing one entry -/

section Entries

variable {change : Option (List Int64) → List Int64} {entries : List (ℕ × List Int64)}

theorem mem_map_fst_alterEntries :
    other ∈ (alterEntries port change entries).map Prod.fst ↔
      other = port ∨ other ∈ entries.map Prod.fst := by
  fun_induction alterEntries port change entries with
  | case1 => simp
  | case2 first values rest hbefore => simp
  | case3 values rest hnot => simp
  | case4 first values rest hnot hne ih =>
      rw [List.map_cons, List.map_cons, List.mem_cons, List.mem_cons, ih]
      exact or_left_comm

theorem pairwise_alterEntries (hentries : (entries.map Prod.fst).Pairwise (· < ·)) :
    ((alterEntries port change entries).map Prod.fst).Pairwise (· < ·) := by
  fun_induction alterEntries port change entries with
  | case1 => simp
  | case2 first values rest hbefore =>
      rw [List.map_cons, List.pairwise_cons]
      refine ⟨List.forall_mem_cons.mpr ⟨hbefore, fun later hmem => ?_⟩, hentries⟩
      exact Nat.lt_trans hbefore (List.rel_of_pairwise_cons hentries hmem)
  | case3 values rest hnot => exact hentries
  | case4 first values rest hnot hne ih =>
      rw [List.map_cons, List.pairwise_cons]
      refine ⟨fun later hmem => ?_, ih hentries.of_cons⟩
      rcases mem_map_fst_alterEntries.mp hmem with rfl | hlater
      · omega
      · exact List.rel_of_pairwise_cons hentries hlater

theorem lookup_cons_eq_ite (first : ℕ) (values : List Int64) (rest : List (ℕ × List Int64)) :
    List.lookup other ((first, values) :: rest) =
      if other = first then some values else rest.lookup other := by
  rw [List.lookup_cons]
  split
  · rename_i hsame
    rw [if_pos (eq_of_beq hsame)]
  · rename_i hne
    rw [if_neg (ne_of_beq_false hne)]

theorem lookup_alterEntries (hentries : (entries.map Prod.fst).Pairwise (· < ·)) :
    (alterEntries port change entries).lookup other =
      if other = port then some (change (entries.lookup port)) else entries.lookup other := by
  fun_induction alterEntries port change entries with
  | case1 => exact lookup_cons_eq_ite _ _ _
  | case2 first values rest hbefore =>
      -- the port is missing, since the first one is too large already
      have hmissing : List.lookup port ((first, values) :: rest) = none := by
        refine List.lookup_eq_none_iff.mpr fun entry hmem => bne_iff_ne.mpr ?_
        rcases List.mem_cons.mp hmem with rfl | hlater
        · exact Nat.ne_of_lt hbefore
        · have hafter := List.rel_of_pairwise_cons hentries (List.mem_map_of_mem hlater)
          exact Nat.ne_of_lt (Nat.lt_trans hbefore hafter)
      rw [lookup_cons_eq_ite, hmissing]
  | case3 values rest hnot =>
      rw [lookup_cons_eq_ite, lookup_cons_eq_ite, lookup_cons_eq_ite, if_pos rfl]
      split <;> rfl
  | case4 first values rest hnot hne ih =>
      rw [lookup_cons_eq_ite, ih hentries.of_cons, lookup_cons_eq_ite, lookup_cons_eq_ite,
        if_neg hne]
      by_cases hfirst : other = first
      · have hother : other ≠ port := fun hport => hne (hport.symm.trans hfirst)
        rw [if_pos hfirst, if_neg hother, if_pos hfirst]
      · rw [if_neg hfirst, if_neg hfirst]

end Entries

/-! ## Adding values to a port -/

theorem ascending_empty : empty.Ascending := .nil

theorem Ascending.append (hascending : table.Ascending) (port : ℕ) (values : List Int64) :
    (table.append port values).Ascending :=
  pairwise_alterEntries hascending

theorem find?_append (hascending : table.Ascending) :
    (table.append port values).find? other =
      if other = port then some (table.values port ++ values) else table.find? other :=
  lookup_alterEntries hascending

/-! ## Tables that are made up of pieces -/

/-- What the pieces hold for a port, one after the other. -/
def gathered (pieces : List (ℕ × List Int64)) (port : ℕ) : List Int64 :=
  (pieces.filter (·.1 == port)).flatMap Prod.snd

/-- The table has an entry for every port that occurs in the pieces and for no other, with
the values of all its pieces. -/
structure Collects (table : PortTable) (pieces : List (ℕ × List Int64)) : Prop where
  ascending : table.Ascending
  find?_eq : ∀ port, table.find? port =
    if port ∈ pieces.map Prod.fst then some (gathered pieces port) else none

variable {pieces : List (ℕ × List Int64)}

theorem gathered_append_singleton :
    gathered (pieces ++ [(port, values)]) other =
      gathered pieces other ++ if other = port then values else [] := by
  unfold gathered
  rw [List.filter_append, List.flatMap_append]
  split
  · rename_i hsame
    simp [hsame]
  · rename_i hne
    simp [Ne.symm hne]

theorem gathered_eq_nil (hmissing : port ∉ pieces.map Prod.fst) : gathered pieces port = [] := by
  have hfilter : pieces.filter (·.1 == port) = [] := by
    refine List.filter_eq_nil_iff.mpr fun piece hmem => ?_
    have hne : piece.1 ≠ port := fun hsame => hmissing (hsame ▸ List.mem_map_of_mem hmem)
    simpa using hne
  rw [gathered, hfilter, List.flatMap_nil]

theorem Collects.values_eq (hcollects : table.Collects pieces) (port : ℕ) :
    table.values port = gathered pieces port := by
  rw [PortTable.values, hcollects.find?_eq]
  split
  · rfl
  · rename_i hmissing
    exact (gathered_eq_nil hmissing).symm

theorem collects_empty : empty.Collects [] := ⟨ascending_empty, fun _ => rfl⟩

theorem Collects.append (hcollects : table.Collects pieces) (port : ℕ) (values : List Int64) :
    (table.append port values).Collects (pieces ++ [(port, values)]) := by
  refine ⟨hcollects.ascending.append port values, fun other => ?_⟩
  rw [find?_append hcollects.ascending, gathered_append_singleton, List.map_append,
    List.map_singleton, hcollects.find?_eq, hcollects.values_eq]
  by_cases hsame : other = port
  · simp [hsame]
  · have hmem : other ∈ pieces.map Prod.fst ++ [port] ↔ other ∈ pieces.map Prod.fst := by
      simp [hsame]
    simp only [hmem, if_neg hsame, List.append_nil]

/-- Pieces that are added one by one to an empty table are collected in it. -/
theorem collects_foldl (pieces : List (ℕ × List Int64)) :
    (pieces.foldl (fun table piece => table.append piece.1 piece.2) empty).Collects pieces := by
  induction pieces using List.reverseRecOn with
  | nil => exact collects_empty
  | append_singleton earlier piece ih =>
      rw [List.foldl_append]
      exact ih.append piece.1 piece.2

end NodeGrid.PortTable

import NodeGrid.Text.Uppercase
import Mathlib.Data.Nat.Notation

/-!
# The lines of a text in upper case

A text in upper case has the lines that it had before, each of them in upper case
(`splitOn_ofText`).  For a line break is its own upper-case form, and no other
character has a form with a line break in it (`mem_ofChar_iff`).
-/

namespace NodeGrid.Text

variable {text : List Char}

/-! ## The lines of a text -/

/-- What holds of a single line, and of a text if it holds on either side of a line
break, holds of every text. -/
theorem lines_induction {motive : List Char → Prop} (line : ∀ line, '\n' ∉ line → motive line)
    (joined : ∀ before after, motive before → motive after → motive (before ++ '\n' :: after))
    (text : List Char) : motive text := by
  induction hlength : text.length using Nat.strongRecOn generalizing text with
  | _ length ih =>
      by_cases hbreak : '\n' ∈ text
      · obtain ⟨before, after, rfl⟩ := List.append_of_mem hbreak
        rw [List.length_append, List.length_cons] at hlength
        exact joined before after (ih before.length (by omega) before rfl)
          (ih after.length (by omega) after rfl)
      · exact line text hbreak

theorem splitOn_line {line : List Char} (hline : '\n' ∉ line) : line.splitOn '\n' = [line] := by
  refine List.splitOnP_eq_singleton fun c hc => beq_false_of_ne ?_
  rintro rfl
  exact hline hc

theorem splitOn_break (before after : List Char) :
    (before ++ '\n' :: after).splitOn '\n' = before.splitOn '\n' ++ after.splitOn '\n' :=
  List.splitOnP_append_cons before after (beq_self_eq_true '\n')

/-- There is one line more than there are line breaks. -/
theorem length_splitOn (text : List Char) :
    (text.splitOn '\n').length = text.count '\n' + 1 := by
  induction text using lines_induction with
  | line line hline => rw [splitOn_line hline, List.count_eq_zero.mpr hline, List.length_singleton]
  | joined before after hbefore hafter =>
      rw [splitOn_break, List.length_append, hbefore, hafter, List.count_append,
        List.count_cons_self]
      omega

theorem splitOn_ne_nil (text : List Char) : text.splitOn '\n' ≠ [] := by
  intro hnil
  have hlength := length_splitOn text
  rw [hnil, List.length_nil] at hlength
  omega

/-- The lines of a text have no line breaks in them. -/
theorem not_newline_mem_of_mem_splitOn {line : List Char} (hmem : line ∈ text.splitOn '\n') :
    '\n' ∉ line := by
  induction text using lines_induction with
  | line whole hwhole =>
      rw [splitOn_line hwhole] at hmem
      rwa [List.mem_singleton.mp hmem]
  | joined before after hbefore hafter =>
      rw [splitOn_break] at hmem
      exact (List.mem_append.mp hmem).elim hbefore hafter

/-! ## Line breaks in upper case -/

namespace Uppercase

variable {c : Char}

theorem ofAscii_eq_newline (hascii : c.toNat < 128) (hbreak : ofAscii c = '\n') : c = '\n' := by
  have hall : ∀ code < 128, ofAscii (.ofNat code) = '\n' → Char.ofNat code = '\n' := by decide
  have hcode := hall c.toNat hascii
  rw [Char.ofNat_toNat] at hcode
  exact hcode hbreak

/-- A line break is made of one code only. -/
theorem eq_of_ofNat_eq_newline {code : ℕ} (hcode : Char.ofNat code = '\n') : code = 10 := by
  unfold Char.ofNat at hcode
  by_cases hvalid : code.isValidChar
  · rw [dif_pos hvalid] at hcode
    exact congrArg Char.toNat hcode
  · rw [dif_neg hvalid] at hcode
    cases hcode

theorem newline_not_mem_ofNonAscii (hascii : ¬ c.toNat < 128) : '\n' ∉ ofNonAscii c := by
  -- the tables are checked once, entry by entry
  have hstretches : ∀ stretch ∈ stretches, 10 < stretch.first + stretch.shift := by decide +kernel
  have hexpansions : ∀ expansion ∈ expansions, 10 ∉ expansion.2 := by decide +kernel
  intro hmem
  unfold ofNonAscii at hmem
  split at hmem
  · rename_i stretch hfind
    have hcontains := List.find?_some hfind
    have hshift := hstretches stretch (List.mem_of_find?_eq_some hfind)
    simp only [Stretch.contains, Bool.and_eq_true, decide_eq_true_eq] at hcontains
    have hcode := eq_of_ofNat_eq_newline (List.mem_singleton.mp hmem).symm
    omega
  · split at hmem
    · rename_i code form hfind
      obtain ⟨inner, hinner, hbreak⟩ := List.mem_map.mp hmem
      obtain rfl := eq_of_ofNat_eq_newline hbreak
      exact hexpansions _ (List.mem_of_find?_eq_some hfind) hinner
    · obtain rfl := List.mem_singleton.mp hmem
      exact hascii (by decide)

/-- A line break stands in no upper-case form but its own. -/
theorem mem_ofChar_iff : '\n' ∈ ofChar c ↔ c = '\n' := by
  constructor
  · intro hmem
    unfold ofChar at hmem
    split at hmem
    · rename_i hascii
      exact ofAscii_eq_newline hascii (List.mem_singleton.mp hmem).symm
    · rename_i hascii
      exact absurd hmem (newline_not_mem_ofNonAscii hascii)
  · rintro rfl
    decide

theorem newline_mem_ofText_iff : '\n' ∈ ofText text ↔ '\n' ∈ text := by
  simp [ofText, mem_ofChar_iff]

/-- The lines of a text in upper case are its lines in upper case. -/
theorem splitOn_ofText (text : List Char) :
    (ofText text).splitOn '\n' = (text.splitOn '\n').map ofText := by
  induction text using lines_induction with
  | line line hline =>
      rw [splitOn_line hline, splitOn_line (mt newline_mem_ofText_iff.mp hline),
        List.map_singleton]
  | joined before after hbefore hafter =>
      have hbreak : ofChar '\n' = ['\n'] := by decide
      rw [ofText_append, ofText_cons, hbreak, List.singleton_append, splitOn_break, splitOn_break,
        hbefore, hafter, List.map_append]

end Uppercase

end NodeGrid.Text

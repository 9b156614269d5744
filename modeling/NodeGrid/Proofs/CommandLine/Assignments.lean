import NodeGrid.CommandLine.Config
import NodeGrid.Proofs.Suite.PortTables
import NodeGrid.Proofs.Text.Numerals
import NodeGrid.Proofs.Yields

/-!
# Assignments to columns

What an assignment of a command line says, told without reading it.  It names a column in
front of its first equals sign (`NamesColumn`) and lists values behind it (`ListsValues`);
there may be blanks around any of the numbers.  An assignment is refused for one of three
reasons (`Refuses`): there is no column, the column is outside of the grid, or there are no
values.  Reading an assignment succeeds and fails accordingly (`readAssignment_eq_ok_iff`,
`readAssignment_eq_error_iff`).

Assignments that are all accepted are collected in a table, and otherwise the first one that
is refused is reported (`readAssignments_collects`).
-/

namespace NodeGrid.CommandLine

open List (Forall₂)
open Text (Pads IsBlank WritesCount WritesInt)

/-! ## What an assignment says -/

/-- In front of an equals sign is a count, with `rest` behind the sign. -/
def NamesColumn (text : List Char) (col : ℕ) (rest : List Char) : Prop :=
  ∃ before numeral, Pads numeral before ∧ WritesCount numeral col ∧ col < 2 ^ 64 ∧
    text = before ++ '=' :: rest

/-- The item is a numeral of the value. -/
def HoldsValue (item : List Char) (value : Int64) : Prop :=
  ∃ numeral, Pads numeral item ∧ WritesInt numeral value.toInt

/-- The values stand between commas, or there is nothing. -/
inductive ListsValues : List Char → List Int64 → Prop where
  | nothing {text : List Char} (hblank : IsBlank text) : ListsValues text []
  | items {items : List (List Char)} {values : List Int64} (hne : items ≠ [])
      (hitems : Forall₂ HoldsValue items values) : ListsValues ([','].intercalate items) values

/-- The text assigns values to a column. -/
def Assigns (text : List Char) (assigned : ℕ × List Int64) : Prop :=
  ∃ rest, NamesColumn text assigned.1 rest ∧ ListsValues rest assigned.2

/-- Why an assignment is refused.  The column is judged before the values. -/
inductive Refuses (option : ValueOption) (columns : ℕ) (value : String) : ConfigError → Prop where
  | noColumn (hnone : ∀ col rest, ¬ NamesColumn value.toList col rest) :
      Refuses option columns value (.assignment option value)
  | outside {col : ℕ} {rest : List Char} (hcolumn : NamesColumn value.toList col rest)
      (hout : columns ≤ col) : Refuses option columns value (.column option col columns)
  | noValues {col : ℕ} {rest : List Char} (hcolumn : NamesColumn value.toList col rest)
      (hinside : col < columns) (hnone : ∀ values, ¬ ListsValues rest values) :
      Refuses option columns value (.assignment option value)

/-! ## Reading values -/

theorem mapM_eq_some_iff {α β : Type} {f : α → Option β} {list : List α} {results : List β} :
    list.mapM f = some results ↔ Forall₂ (fun a b => f a = some b) list results := by
  induction list generalizing results with
  | nil => simp [eq_comm]
  | cons first rest ih =>
      rw [List.mapM_cons, List.forall₂_cons_left_iff]
      simp only [Option.bind_eq_bind, Option.bind_eq_some_iff, ih, Option.pure_def,
        Option.some.injEq]
      constructor
      · rintro ⟨b, hb, others, hothers, rfl⟩
        exact ⟨b, others, hb, hothers, rfl⟩
      · rintro ⟨b, others, hb, hothers, rfl⟩
        exact ⟨b, hb, others, hothers, rfl⟩

theorem holdsValue_iff {item : List Char} {value : Int64} :
    HoldsValue item value ↔ Text.readValue? (Text.trim item) = some value := by
  rw [Text.readValue?_eq_some_iff]
  exact Text.exists_pads_iff fun core hcore c hmem => (hcore.isInner c hmem).1

/-- Only what is left of the items between blanks matters. -/
theorem forall₂_holdsValue_iff {items : List (List Char)} {values : List Int64} :
    Forall₂ HoldsValue items values ↔
      Forall₂ (fun core value => Text.readValue? core = some value) (items.map Text.trim)
        values := by
  have hsame : HoldsValue = fun item value => Text.readValue? (Text.trim item) = some value := by
    funext item value
    exact propext holdsValue_iff
  rw [List.forall₂_map_left_iff, hsame]

/-- The pieces between commas hold the values, whether blanks are taken away first or not. -/
theorem mapM_pieces_eq_some_iff {text : List Char} {values : List Int64} :
    ((Text.trim text).splitOn ',').mapM (fun item => Text.readValue? (Text.trim item)) =
      some values ↔ Forall₂ HoldsValue (text.splitOn ',') values := by
  rw [forall₂_holdsValue_iff, ← Text.map_trim_splitOn_trim rfl, mapM_eq_some_iff,
    List.forall₂_map_left_iff]

theorem comma_not_mem_of_holdsValue {item : List Char} {value : Int64}
    (hitem : HoldsValue item value) : ',' ∉ item := by
  obtain ⟨numeral, ⟨left, right, hleft, hright, rfl⟩, hwrites⟩ := hitem
  have hcore : ',' ∉ numeral := fun hmem => (hwrites.isInner _ hmem).2.1 rfl
  exact List.not_mem_append (List.not_mem_append (hleft.not_mem rfl) hcore) (hright.not_mem rfl)

/-- Items that hold values are found again between the commas. -/
theorem splitOn_intercalate_items {items : List (List Char)} {values : List Int64}
    (hne : items ≠ []) (hitems : Forall₂ HoldsValue items values) :
    ([','].intercalate items).splitOn ',' = items := by
  refine List.splitOn_intercalate ',' (fun item hmem => ?_) hne
  obtain ⟨index, hindex, rfl⟩ := List.mem_iff_getElem.mp hmem
  exact comma_not_mem_of_holdsValue (hitems.get hindex (hitems.length_eq ▸ hindex))

/-- A blank text holds no value. -/
theorem not_isBlank_of_holds {text : List Char} {values : List Int64}
    (hitems : Forall₂ HoldsValue (text.splitOn ',') values) : ¬ IsBlank text := by
  intro hblank
  rw [← mapM_pieces_eq_some_iff, Text.trim_eq_nil_iff.mpr hblank] at hitems
  cases hitems

theorem readValues?_eq_some_iff {text : List Char} {values : List Int64} :
    readValues? text = some values ↔ ListsValues text values := by
  unfold readValues?
  constructor
  · intro hread
    dsimp only at hread
    split at hread
    · rename_i hnil
      cases hread
      exact .nothing (Text.trim_eq_nil_iff.mp (List.isEmpty_iff.mp hnil))
    · rw [← (List.intercalate_splitOn ',' : _ = text)]
      exact .items (List.splitOn_ne_nil _ _) (mapM_pieces_eq_some_iff.mp hread)
  · intro hlists
    cases hlists with
    | nothing hblank =>
        rw [Text.trim_eq_nil_iff.mpr hblank]
        rfl
    | @items items _ hne hitems =>
        rw [← splitOn_intercalate_items hne hitems] at hitems
        -- a list with an item is not blank
        have hnot : ¬ (Text.trim ([','].intercalate items)).isEmpty := fun hnil =>
          not_isBlank_of_holds hitems (Text.trim_eq_nil_iff.mp (List.isEmpty_iff.mp hnil))
        exact (if_neg hnot).trans (mapM_pieces_eq_some_iff.mpr hitems)

/-! ## Reading an assignment -/

section Assignment

variable {text rest : List Char} {col columns : ℕ} {option : ValueOption} {value : String}

theorem NamesColumn.split (hcolumn : NamesColumn text col rest) :
    Text.readCount? (Text.trim (text.takeWhile (· != '='))) = some col ∧
      text.dropWhile (· != '=') = '=' :: rest := by
  obtain ⟨before, numeral, hpads, hcount, hfits, rfl⟩ := hcolumn
  have hinner := hcount.isInner
  have htrim : Text.trim before = numeral := hpads.trim_eq fun c hmem => (hinner c hmem).1
  have hbefore : ∀ c ∈ before, (c != '=') = true := by
    obtain ⟨left, right, hleft, hright, rfl⟩ := hpads
    have hcore : '=' ∉ numeral := fun hmem => (hinner _ hmem).2.2 rfl
    have hmissing : '=' ∉ left ++ numeral ++ right :=
      List.not_mem_append (List.not_mem_append (hleft.not_mem rfl) hcore) (hright.not_mem rfl)
    exact fun c hmem => bne_iff_ne.mpr fun hsame => hmissing (hsame ▸ hmem)
  rw [List.takeWhile_append_of_pos hbefore, List.dropWhile_append_of_pos hbefore]
  have hread : Text.readCount? numeral = some col := Text.readCount?_eq_some_iff.mpr ⟨hcount, hfits⟩
  simpa [htrim] using hread

theorem namesColumn_of_split
    (hcount : Text.readCount? (Text.trim (text.takeWhile (· != '='))) = some col)
    (hsplit : text.dropWhile (· != '=') = '=' :: rest) : NamesColumn text col rest := by
  obtain ⟨hwrites, hfits⟩ := Text.readCount?_eq_some_iff.mp hcount
  refine ⟨_, _, Text.pads_trim _, hwrites, hfits, ?_⟩
  rw [← hsplit, List.takeWhile_append_dropWhile]

theorem readAssignment_of_column (hcolumn : NamesColumn value.toList col rest) :
    readAssignment option columns value =
      if columns ≤ col then .error (.column option col columns)
      else (readValues? rest).elim (.error (.assignment option value)) fun values =>
        .ok (col, values) := by
  obtain ⟨hcount, hsplit⟩ := hcolumn.split
  simp only [readAssignment, hsplit, hcount]
  split
  · rfl
  · cases readValues? rest <;> rfl

theorem readAssignment_of_noColumn (hnone : ∀ col rest, ¬ NamesColumn value.toList col rest) :
    readAssignment option columns value = .error (.assignment option value) := by
  unfold readAssignment
  dsimp only
  split
  · rfl
  · rename_i c rest hsplit
    have hequals : c = '=' := by
      have hhead : c ∈ (value.toList.dropWhile (· != '=')).head? := by rw [hsplit]; rfl
      have hstop : (c != '=') = false := Assembly.head?_dropWhile value.toList c hhead
      simpa using hstop
    subst hequals
    split
    · rfl
    · rename_i col hcount
      exact absurd (namesColumn_of_split hcount hsplit) (hnone col rest)

/-- There is one column at most, and one text behind it. -/
theorem assigns_iff_of_column (hcolumn : NamesColumn text col rest) {assigned : ℕ × List Int64} :
    Assigns text assigned ↔ assigned.1 = col ∧ ListsValues rest assigned.2 := by
  obtain ⟨hcount, hsplit⟩ := hcolumn.split
  constructor
  · rintro ⟨other, hother, hvalues⟩
    obtain ⟨hotherCount, hotherSplit⟩ := hother.split
    cases hsplit.symm.trans hotherSplit
    exact ⟨Option.some.inj (hotherCount.symm.trans hcount), hvalues⟩
  · rintro ⟨hsame, hvalues⟩
    exact ⟨rest, hsame ▸ hcolumn, hvalues⟩

/-- What is assigned to a column within the grid is read. -/
theorem readAssignment_eq_ok_iff {assigned : ℕ × List Int64} :
    readAssignment option columns value = .ok assigned ↔
      Assigns value.toList assigned ∧ assigned.1 < columns := by
  -- the text names a column in one way at most
  by_cases hnone : ∀ col rest, ¬ NamesColumn value.toList col rest
  · rw [readAssignment_of_noColumn hnone]
    exact iff_of_false nofun fun ⟨⟨rest, hcolumn, _⟩, _⟩ => hnone _ rest hcolumn
  · push Not at hnone
    obtain ⟨col, rest, hcolumn⟩ := hnone
    rw [readAssignment_of_column hcolumn, ite_error_eq_ok, assigns_iff_of_column hcolumn]
    constructor
    · rintro ⟨hinside, hread⟩
      cases hvalues : readValues? rest with
      | none =>
          rw [hvalues] at hread
          cases hread
      | some values =>
          rw [hvalues] at hread
          cases hread
          exact ⟨⟨rfl, readValues?_eq_some_iff.mp hvalues⟩, Nat.lt_of_not_le hinside⟩
    · rintro ⟨⟨rfl, hvalues⟩, hinside⟩
      rw [readValues?_eq_some_iff.mpr hvalues]
      exact ⟨Nat.not_le_of_lt hinside, rfl⟩

theorem readAssignment_eq_error_iff {error : ConfigError} :
    readAssignment option columns value = .error error ↔ Refuses option columns value error := by
  constructor
  · intro hread
    by_cases hnone : ∀ col rest, ¬ NamesColumn value.toList col rest
    · rw [readAssignment_of_noColumn hnone] at hread
      cases hread
      exact .noColumn hnone
    · push Not at hnone
      obtain ⟨col, rest, hcolumn⟩ := hnone
      rw [readAssignment_of_column hcolumn] at hread
      split at hread
      · rename_i hout
        cases hread
        exact .outside hcolumn hout
      · -- the column is inside, so the values are to blame
        rename_i hinside
        cases hvalues : readValues? rest with
        | none =>
            rw [hvalues] at hread
            cases hread
            refine .noValues hcolumn (Nat.lt_of_not_le hinside) fun values hlists => ?_
            cases hvalues.symm.trans (readValues?_eq_some_iff.mpr hlists)
        | some values =>
            rw [hvalues] at hread
            cases hread
  · intro hrefuses
    cases hrefuses with
    | noColumn hnone => exact readAssignment_of_noColumn hnone
    | outside hcolumn hout => rw [readAssignment_of_column hcolumn, if_pos hout]
    | @noValues col rest hcolumn hinside hnone =>
        have hvalues : readValues? rest = none :=
          Option.eq_none_iff_forall_ne_some.mpr fun values hread =>
            hnone values (readValues?_eq_some_iff.mp hread)
        rw [readAssignment_of_column hcolumn, if_neg (Nat.not_le_of_lt hinside), hvalues]
        rfl

end Assignment

/-! ## Reading all assignments -/

/-- The text is not accepted: it assigns nothing, or the column is outside of the grid. -/
def IsRefused (columns : ℕ) (text : List Char) : Prop :=
  (∀ assigned, ¬ Assigns text assigned) ∨ ∃ col rest, NamesColumn text col rest ∧ columns ≤ col

theorem not_isRefused_iff {columns : ℕ} {text : List Char} :
    ¬ IsRefused columns text ↔ ∃ assigned, Assigns text assigned ∧ assigned.1 < columns := by
  constructor
  · intro haccepted
    obtain ⟨hassigns, hinside⟩ := not_or.mp haccepted
    push Not at hassigns hinside
    obtain ⟨assigned, hassigned⟩ := hassigns
    have ⟨rest, hcolumn, _⟩ := hassigned
    exact ⟨assigned, hassigned, hinside _ rest hcolumn⟩
  · rintro ⟨assigned, hassigned, hinside⟩ (hnone | ⟨col, rest, hcolumn, hout⟩)
    · exact hnone assigned hassigned
    · obtain ⟨hsame, -⟩ := (assigns_iff_of_column hcolumn).mp hassigned
      omega

section Assignments

variable {option : ValueOption} {columns : ℕ} {texts : List String}

theorem exists_readAssignment_eq_ok_iff {value : String} :
    (∃ assigned, readAssignment option columns value = .ok assigned) ↔
      ¬ IsRefused columns value.toList := by
  simp only [readAssignment_eq_ok_iff, not_isRefused_iff]

/-- The assignments are read one by one, and what they assign is added up. -/
theorem readAssignments_eq (table : PortTable) (texts : List String) :
    readAssignments option columns table texts =
      (texts.mapM (readAssignment option columns)).map fun pieces =>
        pieces.foldl (fun table piece => table.append piece.1 piece.2) table := by
  induction texts generalizing table with
  | nil => rfl
  | cons value rest ih =>
      rw [readAssignments, List.mapM_cons, map_bind]
      refine congrArg _ (funext fun assigned => ?_)
      rw [map_bind]
      refine (ih _).trans ?_
      cases rest.mapM (readAssignment option columns) <;> rfl

/-- Assignments are accepted if each of them assigns values to a column of the grid. -/
theorem readAssignments_eq_ok_iff {table : PortTable} :
    readAssignments option columns .empty texts = .ok table ↔ ∃ pieces,
      Forall₂ (fun text piece => Assigns text.toList piece ∧ piece.1 < columns) texts pieces ∧
        table = pieces.foldl (fun table piece => table.append piece.1 piece.2) .empty := by
  have hpieces : ∀ pieces, texts.mapM (readAssignment option columns) = .ok pieces ↔
      Forall₂ (fun text piece => Assigns text.toList piece ∧ piece.1 < columns) texts pieces := by
    intro pieces
    rw [mapM_eq_ok_iff]
    simp only [readAssignment_eq_ok_iff]
  rw [readAssignments_eq]
  simp only [← hpieces]
  cases texts.mapM (readAssignment option columns) <;> simp [Except.map, eq_comm]

/-- A table that has been read collects what the texts assign. -/
theorem exists_pieces {table : PortTable}
    (hread : readAssignments option columns .empty texts = .ok table) : ∃ pieces,
      Forall₂ (fun text piece => Assigns text.toList piece ∧ piece.1 < columns) texts pieces ∧
        table.Collects pieces := by
  obtain ⟨pieces, hpieces, rfl⟩ := readAssignments_eq_ok_iff.mp hread
  exact ⟨pieces, hpieces, PortTable.collects_foldl pieces⟩

/-- Only columns of the grid are accepted. -/
theorem lt_of_readAssignments {table : PortTable} {col : ℕ} {values : List Int64}
    (hread : readAssignments option columns .empty texts = .ok table)
    (hentry : table.find? col = some values) : col < columns := by
  obtain ⟨pieces, hpieces, hcollects⟩ := exists_pieces hread
  have hfind := hcollects.find?_eq col
  rw [hentry] at hfind
  split at hfind
  · rename_i hmem
    obtain ⟨piece, hpiece, rfl⟩ := List.mem_map.mp hmem
    obtain ⟨index, hindex, rfl⟩ := List.mem_iff_getElem.mp hpiece
    exact (hpieces.get (hpieces.length_eq ▸ hindex) hindex).2
  · cases hfind

/-- Assignments to columns of the grid are collected. -/
theorem exists_collects {pieces : List (ℕ × List Int64)}
    (hassigns : Forall₂ (fun text piece => Assigns text.toList piece) texts pieces)
    (hinside : ∀ piece ∈ pieces, piece.1 < columns) :
    ∃ table, readAssignments option columns .empty texts = .ok table ∧ table.Collects pieces := by
  have hboth : Forall₂ (fun piece text => piece.1 < columns ∧ Assigns text.toList piece)
      pieces texts := (List.forall₂_and_left _ _).mpr ⟨hinside, Forall₂.flip hassigns⟩
  have hpieces := Forall₂.flip (hboth.imp fun piece text hpair => hpair.symm)
  exact ⟨_, readAssignments_eq_ok_iff.mpr ⟨pieces, hpieces, rfl⟩, PortTable.collects_foldl pieces⟩

/-- The first assignment that is refused is reported. -/
theorem readAssignments_eq_error_iff {error : ConfigError} :
    readAssignments option columns .empty texts = .error error ↔
      ∃ earlier text later, texts = earlier ++ text :: later ∧
        (∀ other ∈ earlier, ¬ IsRefused columns other.toList) ∧
        Refuses option columns text error := by
  have hread : readAssignments option columns .empty texts = .error error ↔
      texts.mapM (readAssignment option columns) = .error error := by
    rw [readAssignments_eq]
    cases texts.mapM (readAssignment option columns) <;> simp [Except.map]
  rw [hread, mapM_eq_error_iff]
  simp only [exists_readAssignment_eq_ok_iff, readAssignment_eq_error_iff]

/-- Assignments are not accepted exactly if one of them is refused. -/
theorem exists_readAssignments_eq_error_iff :
    (∃ error, readAssignments option columns .empty texts = .error error) ↔
      ∃ text ∈ texts, IsRefused columns text.toList := by
  have hread : (∃ pieces, texts.mapM (readAssignment option columns) = .ok pieces) ↔
      ∀ text ∈ texts, ¬ IsRefused columns text.toList := by
    rw [exists_mapM_eq_ok_iff]
    simp only [exists_readAssignment_eq_ok_iff]
  rw [← not_iff_not, readAssignments_eq]
  push Not
  rw [← hread]
  cases texts.mapM (readAssignment option columns) <;> simp [Except.map]

end Assignments

/-! ## Written assignments -/

section Written

variable {before : List Char} {col : ℕ}

theorem namesColumn_of_pads (hfits : col < 2 ^ 64) (hbefore : Pads (Text.writeCount col) before)
    (rest : List Char) : NamesColumn (before ++ '=' :: rest) col rest := by
  obtain ⟨hcount, -⟩ := Text.readCount?_eq_some_iff.mp (Text.readCount?_writeCount hfits)
  exact ⟨before, _, hbefore, hcount, hfits, rfl⟩

/-- Written values may have blanks around them. -/
theorem listsValues_of_pads {items : List (List Char)} {values : List Int64}
    (hitems : Forall₂ (fun item value => Pads (Text.writeValue value) item) items values) :
    ListsValues ([','].intercalate items) values := by
  have hholds : Forall₂ HoldsValue items values := hitems.imp fun item value hpads =>
    ⟨_, hpads, Text.readValue?_eq_some_iff.mp (Text.readValue?_writeValue value)⟩
  cases items with
  | nil =>
      cases hholds
      exact .nothing (by simp [IsBlank])
  | cons first rest => exact .items (List.cons_ne_nil _ _) hholds

end Written

/-- If every text assigns values to a column of the grid, their table has an entry for each
column that occurs, with all of its values in order.  Otherwise there is an error, and it is
about the first text that is refused.  Among the texts that assign values are the written
ones, with any blanks around the column and the values. -/
theorem readAssignments_collects (option : ValueOption) (columns : ℕ) :
    (∀ texts pieces, Forall₂ (fun text piece => Assigns (String.toList text) piece) texts pieces →
      (∀ piece ∈ pieces, piece.1 < columns) →
      ∃ table, readAssignments option columns .empty texts = .ok table ∧
        table.Collects pieces) ∧
    (∀ texts, (∃ error, readAssignments option columns .empty texts = .error error) ↔
      ∃ text ∈ texts, IsRefused columns text.toList) ∧
    (∀ texts error, readAssignments option columns .empty texts = .error error ↔
      ∃ earlier text later, texts = earlier ++ text :: later ∧
        (∀ other ∈ earlier, ¬ IsRefused columns other.toList) ∧
        Refuses option columns text error) ∧
    (∀ col before, col < 2 ^ 64 → Pads (Text.writeCount col) before →
      (∀ blank, IsBlank blank → Assigns (before ++ '=' :: blank) (col, [])) ∧
      ∀ items values, Forall₂ (fun item value => Pads (Text.writeValue value) item) items values →
        Assigns (before ++ '=' :: [','].intercalate items) (col, values)) := by
  refine ⟨fun texts pieces => exists_collects, fun texts => exists_readAssignments_eq_error_iff,
    fun texts error => readAssignments_eq_error_iff, fun col before hfits hbefore => ⟨?_, ?_⟩⟩
  · exact fun blank hblank => ⟨blank, namesColumn_of_pads hfits hbefore blank, .nothing hblank⟩
  · exact fun items values hitems =>
      ⟨_, namesColumn_of_pads hfits hbefore _, listsValues_of_pads hitems⟩

/-- Column 0 is assigned to twice.  What comes after the first refusal is not looked at. -/
theorem readAssignments_repeated :
    (∃ table, readAssignments .input 2 .empty ["0=1,2", "1=-5", " 0 = +3 ", "1="] = .ok table ∧
      table.Collects [(0, [1, 2]), (1, [-5]), (0, [3]), (1, [])]) ∧
    readAssignments .expect 1 .empty ["0= ", "1=x", "x"] = .error (.column .expect 1 1) := by
  obtain ⟨hcollects, -, -⟩ := readAssignments_collects .input 2
  obtain ⟨-, -, herror, -⟩ := readAssignments_collects .expect 1
  have hassigns : ∀ value assigned, readAssignment .input 2 value = .ok assigned →
      Assigns value.toList assigned := fun value assigned hread =>
    (readAssignment_eq_ok_iff.mp hread).1
  have haccepted : ∀ value, (∃ assigned, readAssignment .expect 1 value = .ok assigned) →
      ¬ IsRefused 1 value.toList := fun value => exists_readAssignment_eq_ok_iff.mp
  constructor
  · refine hcollects _ _ ?_ (by decide)
    exact .cons (hassigns _ _ rfl) (.cons (hassigns _ _ rfl)
      (.cons (hassigns _ _ rfl) (.cons (hassigns _ _ rfl) .nil)))
  · refine (herror _ _).mpr ⟨["0= "], "1=x", ["x"], rfl, ?_, ?_⟩
    · exact List.forall_mem_singleton.mpr (haccepted _ ⟨(0, []), rfl⟩)
    · exact readAssignment_eq_error_iff.mp rfl

end NodeGrid.CommandLine

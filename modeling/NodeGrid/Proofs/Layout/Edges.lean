import NodeGrid.Layout
import Mathlib.Data.Fin.Basic

/-!
# The channels of a grid

A channel is attached at the ports of nodes and at the input and output ports of a grid,
which are the *places* of the grid.  Two places adjoin if one is right of the other or
below it, with nothing in between (`Attachment.Adjoins`).

Here every channel is named by where it lies instead of when it was made: it is either a
horizontal or a vertical one (`Edge.exists_horizontal_or_vertical`), and the places of either
kind can be listed (`attached?_eq_horizontal_iff`, `attached?_eq_vertical_iff`).  There are
always two of them, and they adjoin (`Edge.exists_ends`).
-/

namespace NodeGrid

/-- A place of a grid at which a channel can be attached. -/
inductive Attachment (rows cols : ℕ) where
  | port (row : Fin rows) (col : Fin cols) (port : Port)
  | input (col : Fin cols)
  | output (col : Fin cols)

/-- The second place is right of the first one or below it, with nothing in between. -/
inductive Attachment.Adjoins {rows cols : ℕ} : Attachment rows cols → Attachment rows cols → Prop where
  | beside {row : Fin rows} {left right : Fin cols} (hnext : right.val = left.val + 1) :
      Adjoins (.port row left .right) (.port row right .left)
  | beneath {upper lower : Fin rows} {col : Fin cols} (hnext : lower.val = upper.val + 1) :
      Adjoins (.port upper col .down) (.port lower col .up)
  | input {row : Fin rows} {col : Fin cols} (hfirst : row.val = 0) :
      Adjoins (.input col) (.port row col .up)
  | output {row : Fin rows} {col : Fin cols} (hlast : row.val + 1 = rows) :
      Adjoins (.port row col .down) (.output col)

theorem Attachment.Adjoins.ne {rows cols : ℕ} {former latter : Attachment rows cols}
    (hadjoins : former.Adjoins latter) : former ≠ latter := by
  cases hadjoins <;> simp

namespace Edge

/-! ## Positions of a table -/

/-- The row and the column of a position can be read off its number. -/
theorem index_div {width row col : ℕ} (hcol : col < width) : (row * width + col) / width = row := by
  rw [Nat.mul_comm, Nat.mul_add_div (by omega), Nat.div_eq_of_lt hcol, Nat.add_zero]

theorem index_mod {width row col : ℕ} (hcol : col < width) : (row * width + col) % width = col := by
  rw [Nat.mul_comm, Nat.mul_add_mod, Nat.mod_eq_of_lt hcol]

/-- Positions are numbered one by one. -/
theorem index_inj {width row col otherRow otherCol : ℕ} (hcol : col < width)
    (hother : otherCol < width) (hindex : row * width + col = otherRow * width + otherCol) :
    row = otherRow ∧ col = otherCol := by
  constructor
  · exact (index_div hcol).symm.trans (hindex ▸ index_div hother)
  · exact (index_mod hcol).symm.trans (hindex ▸ index_mod hother)

/-- Every number below the size of a table is that of a position. -/
theorem exists_index {rows width number : ℕ} (hnumber : number < rows * width) :
    ∃ (row : Fin rows) (col : Fin width), number = row.val * width + col.val := by
  have hwidth : 0 < width := Nat.pos_of_mul_pos_left (Nat.zero_lt_of_lt hnumber)
  exact ⟨⟨number / width, Nat.div_lt_of_lt_mul (Nat.mul_comm rows width ▸ hnumber)⟩,
    ⟨number % width, Nat.mod_lt _ hwidth⟩, (Nat.div_add_mod' number width).symm⟩

/-! ## Horizontal and vertical channels -/

/-- The number of horizontal channels. -/
def horizontals (rows cols : ℕ) : ℕ :=
  rows * (cols - 1)

/-- The number of levels of vertical channels.  Level `r` lies above row `r`, and the last level
lies below the last row. -/
def levels (rows : ℕ) : ℕ :=
  if rows = 0 then 0 else rows + 1

/-- The number of channels. -/
def count (rows cols : ℕ) : ℕ :=
  horizontals rows cols + levels rows * cols

/-- The number of a vertical channel among the vertical ones.  Those between two rows come level
by level, and then each column has that of its input port and that of its output port. -/
def verticalIndex (rows cols level col : ℕ) : ℕ :=
  if level = 0 then (rows - 1) * cols + 2 * col
  else if level = rows then (rows - 1) * cols + (2 * col + 1)
  else (level - 1) * cols + col

variable {rows cols : ℕ}

theorem levels_bounds (level : Fin (levels rows)) : 0 < rows ∧ level.val ≤ rows := by
  have hlevel := level.isLt
  unfold levels at hlevel
  split at hlevel <;> omega

theorem levels_mul (hrows : 0 < rows) : levels rows * cols = (rows - 1) * cols + 2 * cols := by
  have hlevels : levels rows = rows - 1 + 2 := by
    rw [levels, if_neg hrows.ne']
    omega
  rw [hlevels, Nat.add_mul]

/-- A vertical channel is an input port, an output port, or between two rows. -/
theorem verticalIndex_cases (level : Fin (levels rows)) (col : Fin cols) :
    level.val = 0 ∧ verticalIndex rows cols level col = (rows - 1) * cols + 2 * col.val ∨
      level.val = rows ∧
        verticalIndex rows cols level col = (rows - 1) * cols + (2 * col.val + 1) ∨
      ∃ upper : Fin (rows - 1), level.val = upper.val + 1 ∧
        verticalIndex rows cols level col = upper.val * cols + col.val := by
  obtain ⟨hrows, hle⟩ := levels_bounds level
  unfold verticalIndex
  by_cases hfirst : level.val = 0
  · exact Or.inl ⟨hfirst, if_pos hfirst⟩
  · refine Or.inr ?_
    rw [if_neg hfirst]
    by_cases hlast : level.val = rows
    · exact Or.inl ⟨hlast, if_pos hlast⟩
    · rw [if_neg hlast]
      exact Or.inr ⟨⟨level.val - 1, by omega⟩, by dsimp only; omega, rfl⟩

theorem verticalIndex_lt (level : Fin (levels rows)) (col : Fin cols) :
    verticalIndex rows cols level col < levels rows * cols := by
  have hcol := col.isLt
  rw [levels_mul (levels_bounds level).1]
  rcases verticalIndex_cases level col with ⟨-, hindex⟩ | ⟨-, hindex⟩ | ⟨upper, -, hindex⟩
  · omega
  · omega
  · have hinner := index_lt upper col
    omega

theorem verticalIndex_inj {level otherLevel : Fin (levels rows)} {col otherCol : Fin cols}
    (heq : verticalIndex rows cols level col = verticalIndex rows cols otherLevel otherCol) :
    level.val = otherLevel.val ∧ col.val = otherCol.val := by
  -- the numbers between two rows are below all others, which alternate
  rcases verticalIndex_cases level col with ⟨hlevel, hindex⟩ | ⟨hlevel, hindex⟩ |
      ⟨upper, hlevel, hindex⟩ <;>
    rcases verticalIndex_cases otherLevel otherCol with ⟨hother, hnumber⟩ | ⟨hother, hnumber⟩ |
      ⟨lower, hother, hnumber⟩
  · omega
  · omega
  · have hinner := index_lt lower otherCol
    omega
  · omega
  · omega
  · have hinner := index_lt lower otherCol
    omega
  · have hinner := index_lt upper col
    omega
  · have hinner := index_lt upper col
    omega
  · obtain ⟨hrow, hcol⟩ :=
      index_inj col.isLt otherCol.isLt (hindex.symm.trans (heq.trans hnumber))
    exact ⟨hlevel.trans (hrow ▸ hother.symm), hcol⟩

/-- Every number of a vertical channel is that of a level and a column. -/
theorem exists_verticalIndex {number : ℕ} (hnumber : number < levels rows * cols) :
    ∃ (level : Fin (levels rows)) (col : Fin cols), number = verticalIndex rows cols level col := by
  have hrows : 0 < rows := by
    by_contra hnone
    rw [levels, if_pos (by omega)] at hnumber
    omega
  have hlevels : levels rows = rows + 1 := if_neg hrows.ne'
  rw [levels_mul hrows] at hnumber
  by_cases hinner : number < (rows - 1) * cols
  · -- the channels between two rows are numbered like the positions of a table
    obtain ⟨upper, col, hindex⟩ := exists_index hinner
    refine ⟨⟨upper.val + 1, by omega⟩, col, ?_⟩
    rw [verticalIndex, if_neg (Nat.succ_ne_zero _), if_neg (by dsimp only; omega)]
    exact hindex
  · -- behind them, the column is half of the number, and the rest tells its two ports apart
    have hcol : (number - (rows - 1) * cols) / 2 < cols := by omega
    rcases Nat.mod_two_eq_zero_or_one (number - (rows - 1) * cols) with heven | hodd
    · refine ⟨⟨0, by omega⟩, ⟨_, hcol⟩, ?_⟩
      rw [verticalIndex, if_pos rfl]
      dsimp only
      omega
    · refine ⟨⟨rows, by omega⟩, ⟨_, hcol⟩, ?_⟩
      rw [verticalIndex, if_neg hrows.ne', if_pos rfl]
      dsimp only
      omega

/-- The channel between columns `col` and `col + 1` of a row. -/
def horizontal (row : Fin rows) (col : Fin (cols - 1)) : Fin (count rows cols) :=
  ⟨row * (cols - 1) + col, by
    have := index_lt row col
    simp only [count, horizontals]
    omega⟩

/-- The channel of a column on a level. -/
def vertical (level : Fin (levels rows)) (col : Fin cols) : Fin (count rows cols) :=
  ⟨horizontals rows cols + verticalIndex rows cols level col,
    Nat.add_lt_add_left (verticalIndex_lt level col) _⟩

theorem horizontal_inj {row otherRow : Fin rows} {col otherCol : Fin (cols - 1)}
    (heq : horizontal row col = horizontal otherRow otherCol) :
    row.val = otherRow.val ∧ col.val = otherCol.val :=
  index_inj col.isLt otherCol.isLt (Fin.ext_iff.mp heq)

theorem vertical_inj {level otherLevel : Fin (levels rows)} {col otherCol : Fin cols}
    (heq : vertical level col = vertical otherLevel otherCol) :
    level.val = otherLevel.val ∧ col.val = otherCol.val :=
  verticalIndex_inj (Nat.add_left_cancel (Fin.ext_iff.mp heq))

theorem horizontal_ne_vertical (row : Fin rows) (col : Fin (cols - 1)) (level : Fin (levels rows))
    (otherCol : Fin cols) : horizontal row col ≠ vertical level otherCol := by
  intro heq
  have hval : row.val * (cols - 1) + col.val =
      horizontals rows cols + verticalIndex rows cols level otherCol := Fin.ext_iff.mp heq
  have hlt := index_lt row col
  unfold horizontals at hval
  omega

theorem exists_horizontal_or_vertical (k : Fin (count rows cols)) :
    (∃ row col, k = horizontal row col) ∨ ∃ level col, k = vertical level col := by
  have hk : k.val < horizontals rows cols + levels rows * cols := k.isLt
  by_cases hside : k.val < horizontals rows cols
  · obtain ⟨row, col, hindex⟩ := exists_index hside
    exact Or.inl ⟨row, col, Fin.ext hindex⟩
  · obtain ⟨level, col, hindex⟩ :=
      exists_verticalIndex (show k.val - horizontals rows cols < levels rows * cols by omega)
    refine Or.inr ⟨level, col, Fin.ext ?_⟩
    change k.val = horizontals rows cols + verticalIndex rows cols level.val col.val
    omega

/-! ## The channel at a place -/

/-- The level above a row. -/
def above (row : Fin rows) : Fin (levels rows) :=
  ⟨row, by
    have := row.isLt
    unfold levels
    split <;> omega⟩

/-- The level below a row. -/
def below (row : Fin rows) : Fin (levels rows) :=
  ⟨row + 1, by
    have := row.isLt
    unfold levels
    split <;> omega⟩

/-- Between two rows, the vertical channels have their numbers in the order of the positions. -/
theorem val_vertical_below {row : ℕ} (hnext : row + 1 < rows) (col : Fin cols) :
    (vertical (below ⟨row, Nat.lt_of_succ_lt hnext⟩) col).val =
      horizontals rows cols + (row * cols + col.val) := by
  change horizontals rows cols + verticalIndex rows cols (row + 1) col.val = _
  rw [verticalIndex, if_neg row.succ_ne_zero, if_neg hnext.ne, Nat.add_sub_cancel]

/-- Above the first row and below the last one, they alternate. -/
theorem val_vertical_first (hrows : 0 < rows) (col : Fin cols) :
    (vertical (above ⟨0, hrows⟩) col).val =
      horizontals rows cols + ((rows - 1) * cols + 2 * col.val) := by
  change horizontals rows cols + verticalIndex rows cols 0 col.val = _
  rw [verticalIndex, if_pos rfl]

theorem val_vertical_last (hrows : 0 < rows) (col : Fin cols) :
    (vertical (below ⟨rows - 1, last_lt hrows⟩) col).val =
      horizontals rows cols + ((rows - 1) * cols + (2 * col.val + 1)) := by
  change horizontals rows cols + verticalIndex rows cols (rows - 1 + 1) col.val = _
  rw [Nat.sub_add_cancel hrows, verticalIndex, if_neg hrows.ne', if_pos rfl]

/-- The channels around a node. -/
def ports (row : Fin rows) (col : Fin cols) : Port → Option (Fin (count rows cols))
  | .left =>
    if h : 0 < col.val then some (horizontal row ⟨col - 1, Nat.sub_lt_sub_right h col.isLt⟩)
    else none
  | .right =>
    if h : col.val + 1 < cols then some (horizontal row ⟨col, Nat.lt_sub_of_add_lt h⟩) else none
  | .up => some (vertical (above row) col)
  | .down => some (vertical (below row) col)

/-- The channels of the input ports, which lie above the first row. -/
def inputs (rows cols : ℕ) : List (Fin (count rows cols)) :=
  if h : 0 < rows then (List.finRange cols).map (vertical (above ⟨0, h⟩)) else []

/-- The channels of the output ports, which lie below the last row. -/
def outputs (rows cols : ℕ) : List (Fin (count rows cols)) :=
  if h : 0 < rows then (List.finRange cols).map (vertical (below ⟨rows - 1, last_lt h⟩)) else []

/-- The channel at a place, by its number. -/
def attached? : Attachment rows cols → Option (Fin (count rows cols))
  | .port row col port => ports row col port
  | .input col => (inputs rows cols)[col.val]?
  | .output col => (outputs rows cols)[col.val]?

section Places

variable {row : Fin rows} {col : Fin cols} {k : Fin (count rows cols)}

theorem ports_left_eq_some_iff : ports row col .left = some k ↔
    ∃ former : Fin (cols - 1), col.val = former.val + 1 ∧ k = horizontal row former := by
  unfold ports
  rw [Option.dite_none_right_eq_some]
  constructor
  · rintro ⟨hleft, hk⟩
    cases hk
    exact ⟨_, (Nat.sub_add_cancel hleft).symm, rfl⟩
  · rintro ⟨former, hcol, rfl⟩
    refine ⟨by omega, ?_⟩
    congr 2
    exact Fin.ext (by dsimp only; omega)

theorem ports_right_eq_some_iff : ports row col .right = some k ↔
    ∃ former : Fin (cols - 1), col.val = former.val ∧ k = horizontal row former := by
  unfold ports
  rw [Option.dite_none_right_eq_some]
  constructor
  · rintro ⟨hright, hk⟩
    cases hk
    exact ⟨_, rfl, rfl⟩
  · rintro ⟨former, hcol, rfl⟩
    refine ⟨by omega, ?_⟩
    congr 2
    exact Fin.ext hcol

theorem getElem?_map_finRange {α : Type} (f : Fin cols → α) (col : Fin cols) :
    ((List.finRange cols).map f)[col.val]? = some (f col) := by
  simp

theorem getElem?_inputs_eq_some_iff : (inputs rows cols)[col.val]? = some k ↔
    ∃ row : Fin rows, row.val = 0 ∧ k = vertical (above row) col := by
  unfold inputs
  split
  · rename_i hrows
    rw [getElem?_map_finRange]
    constructor
    · intro hk
      cases hk
      exact ⟨_, rfl, rfl⟩
    · rintro ⟨row, hrow, rfl⟩
      obtain rfl : row = ⟨0, hrows⟩ := Fin.ext hrow
      rfl
  · rename_i hrows
    rw [List.getElem?_nil]
    refine iff_of_false (by simp) ?_
    rintro ⟨row, -⟩
    exact hrows (Nat.zero_lt_of_lt row.isLt)

theorem getElem?_outputs_eq_some_iff : (outputs rows cols)[col.val]? = some k ↔
    ∃ row : Fin rows, row.val + 1 = rows ∧ k = vertical (below row) col := by
  unfold outputs
  split
  · rename_i hrows
    rw [getElem?_map_finRange]
    constructor
    · intro hk
      cases hk
      exact ⟨_, Nat.sub_add_cancel hrows, rfl⟩
    · rintro ⟨row, hrow, rfl⟩
      have hlast : (⟨rows - 1, by omega⟩ : Fin rows) = row := Fin.ext (Nat.eq_sub_of_add_eq hrow).symm
      rw [hlast]
  · rename_i hrows
    rw [List.getElem?_nil]
    refine iff_of_false (by simp) ?_
    rintro ⟨row, -⟩
    exact hrows (Nat.zero_lt_of_lt row.isLt)

end Places

/-- A horizontal channel is attached to the right of a node and to the left of the next. -/
theorem attached?_eq_horizontal_iff {place : Attachment rows cols} {row : Fin rows}
    {col : Fin (cols - 1)} : attached? place = some (horizontal row col) ↔
      place = .port row ⟨col, Nat.lt_of_lt_pred col.isLt⟩ .right ∨
        place = .port row ⟨col + 1, Nat.add_lt_of_lt_sub col.isLt⟩ .left := by
  -- only the places at the sides of a node can have horizontal channels
  cases place with
  | input other =>
      simp only [attached?, getElem?_inputs_eq_some_iff, reduceCtorEq, or_self, iff_false]
      rintro ⟨first, -, heq⟩
      exact horizontal_ne_vertical _ _ _ _ heq
  | output other =>
      simp only [attached?, getElem?_outputs_eq_some_iff, reduceCtorEq, or_self, iff_false]
      rintro ⟨last, -, heq⟩
      exact horizontal_ne_vertical _ _ _ _ heq
  | port otherRow otherCol port =>
      cases port with
      | left =>
          simp only [attached?, ports_left_eq_some_iff, Attachment.port.injEq, reduceCtorEq,
            and_false, false_or, and_true, Fin.ext_iff]
          constructor
          · rintro ⟨former, hcol, heq⟩
            obtain ⟨hrow, hformer⟩ := horizontal_inj (Fin.ext heq)
            omega
          · rintro ⟨hrow, hcol⟩
            obtain rfl := Fin.ext hrow
            exact ⟨col, hcol, rfl⟩
      | right =>
          simp only [attached?, ports_right_eq_some_iff, Attachment.port.injEq, reduceCtorEq,
            and_false, or_false, and_true, Fin.ext_iff]
          constructor
          · rintro ⟨former, hcol, heq⟩
            obtain ⟨hrow, hformer⟩ := horizontal_inj (Fin.ext heq)
            omega
          · rintro ⟨hrow, hcol⟩
            obtain rfl := Fin.ext hrow
            exact ⟨col, hcol, rfl⟩
      | up =>
          simp only [attached?, ports, Option.some.injEq, Attachment.port.injEq, reduceCtorEq,
            and_false, or_self, iff_false]
          exact (horizontal_ne_vertical _ _ _ _).symm
      | down =>
          simp only [attached?, ports, Option.some.injEq, Attachment.port.injEq, reduceCtorEq,
            and_false, or_self, iff_false]
          exact (horizontal_ne_vertical _ _ _ _).symm

/-- The place above a vertical channel. -/
inductive UpperEnd (level : Fin (levels rows)) (col : Fin cols) : Attachment rows cols → Prop where
  | input (hfirst : level.val = 0) : UpperEnd level col (.input col)
  | node {row : Fin rows} (habove : level.val = row.val + 1) :
      UpperEnd level col (.port row col .down)

/-- The place below a vertical channel. -/
inductive LowerEnd (level : Fin (levels rows)) (col : Fin cols) : Attachment rows cols → Prop where
  | node {row : Fin rows} (hbelow : level.val = row.val) : LowerEnd level col (.port row col .up)
  | output (hlast : level.val = rows) : LowerEnd level col (.output col)

section Vertical

variable {level : Fin (levels rows)} {col : Fin cols} {place other : Attachment rows cols}

theorem exists_upperEnd (level : Fin (levels rows)) (col : Fin cols) :
    ∃ place, UpperEnd level col place := by
  obtain ⟨-, hle⟩ := levels_bounds level
  rcases Nat.eq_zero_or_pos level.val with hfirst | hbelow
  · exact ⟨_, .input hfirst⟩
  · exact ⟨.port ⟨level.val - 1, by omega⟩ col .down, .node (Nat.sub_add_cancel hbelow).symm⟩

theorem exists_lowerEnd (level : Fin (levels rows)) (col : Fin cols) :
    ∃ place, LowerEnd level col place := by
  obtain ⟨-, hle⟩ := levels_bounds level
  rcases hle.eq_or_lt with hlast | hlt
  · exact ⟨_, .output hlast⟩
  · exact ⟨.port ⟨level.val, hlt⟩ col .up, .node rfl⟩

theorem UpperEnd.unique (hplace : UpperEnd level col place) (hother : UpperEnd level col other) :
    place = other := by
  cases hplace with
  | input hfirst =>
      cases hother with
      | input => rfl
      | node habove => omega
  | node habove =>
      cases hother with
      | input hfirst => omega
      | node hother => rw [Fin.ext (Nat.succ.inj (habove.symm.trans hother))]

theorem LowerEnd.unique (hplace : LowerEnd level col place) (hother : LowerEnd level col other) :
    place = other := by
  cases hplace with
  | @node row hbelow =>
      cases hother with
      | node hother => rw [Fin.ext (hbelow.symm.trans hother)]
      | output hlast => omega
  | output hlast =>
      cases hother with
      | node hbelow => omega
      | output => rfl

theorem UpperEnd.adjoins (hupper : UpperEnd level col place) (hlower : LowerEnd level col other) :
    place.Adjoins other := by
  obtain ⟨hrows, -⟩ := levels_bounds level
  cases hupper with
  | input hfirst =>
      cases hlower with
      | node hbelow => exact .input (hbelow.symm.trans hfirst)
      | output hlast => omega
  | node habove =>
      cases hlower with
      | node hbelow => exact .beneath (hbelow.symm.trans habove)
      | output hlast => exact .output (habove.symm.trans hlast)

/-- A vertical channel is attached at the places above and below it. -/
theorem attached?_eq_vertical_iff :
    attached? place = some (vertical level col) ↔
      UpperEnd level col place ∨ LowerEnd level col place := by
  constructor
  · intro hplace
    cases place with
    | input other =>
        obtain ⟨first, hfirst, heq⟩ := getElem?_inputs_eq_some_iff.mp hplace
        obtain ⟨hlevel, hcol⟩ := vertical_inj heq
        obtain rfl := Fin.ext hcol
        exact Or.inl (.input (hlevel.trans hfirst))
    | output other =>
        obtain ⟨last, hlast, heq⟩ := getElem?_outputs_eq_some_iff.mp hplace
        obtain ⟨hlevel, hcol⟩ := vertical_inj heq
        obtain rfl := Fin.ext hcol
        exact Or.inr (.output (hlevel.trans hlast))
    | port row otherCol port =>
        cases port with
        | left =>
            -- the sides of a node have horizontal channels
            obtain ⟨former, -, heq⟩ := ports_left_eq_some_iff.mp hplace
            exact (horizontal_ne_vertical _ _ _ _ heq.symm).elim
        | right =>
            obtain ⟨former, -, heq⟩ := ports_right_eq_some_iff.mp hplace
            exact (horizontal_ne_vertical _ _ _ _ heq.symm).elim
        | up =>
            obtain ⟨hlevel, hcol⟩ := vertical_inj (Option.some.inj hplace)
            obtain rfl := Fin.ext hcol
            exact Or.inr (.node hlevel.symm)
        | down =>
            obtain ⟨hlevel, hcol⟩ := vertical_inj (Option.some.inj hplace)
            obtain rfl := Fin.ext hcol
            exact Or.inl (.node hlevel.symm)
  · obtain ⟨hrows, -⟩ := levels_bounds level
    -- the four kinds of ends, from top to bottom
    rintro ((hfirst | habove) | (hbelow | hlast))
    · exact getElem?_inputs_eq_some_iff.mpr
        ⟨⟨0, hrows⟩, rfl, congrArg (vertical · col) (Fin.ext hfirst)⟩
    · exact congrArg (some <| vertical · col) (Fin.ext habove.symm)
    · exact congrArg (some <| vertical · col) (Fin.ext hbelow.symm)
    · have hlevel := hlast.trans (Nat.sub_add_cancel hrows).symm
      exact getElem?_outputs_eq_some_iff.mpr ⟨⟨rows - 1, last_lt hrows⟩,
        Nat.sub_add_cancel hrows, congrArg (vertical · col) (Fin.ext hlevel)⟩

/-- The two places of a vertical channel are the only ones. -/
theorem UpperEnd.attached?_eq_iff {former latter : Attachment rows cols}
    (hformer : UpperEnd level col former) (hlatter : LowerEnd level col latter) :
    attached? place = some (vertical level col) ↔ place = former ∨ place = latter := by
  rw [attached?_eq_vertical_iff]
  constructor
  · exact Or.imp (·.unique hformer) (·.unique hlatter)
  · rintro (rfl | rfl)
    · exact Or.inl hformer
    · exact Or.inr hlatter

end Vertical

theorem length_inputs (hrows : 0 < rows) : (inputs rows cols).length = cols := by
  simp [inputs, hrows]

theorem length_outputs (hrows : 0 < rows) : (outputs rows cols).length = cols := by
  simp [outputs, hrows]

theorem length_inputs_le : (inputs rows cols).length ≤ cols := by
  unfold inputs
  split <;> simp

theorem length_outputs_le : (outputs rows cols).length ≤ cols := by
  unfold outputs
  split <;> simp

theorem inputs_eq_nil (hempty : rows = 0 ∨ cols = 0) : inputs rows cols = [] := by
  rcases hempty with rfl | rfl
  · rfl
  · exact ite_self []

theorem outputs_eq_nil (hempty : rows = 0 ∨ cols = 0) : outputs rows cols = [] := by
  rcases hempty with rfl | rfl
  · rfl
  · exact ite_self []

/-- Every channel is attached at two places, which adjoin, and nowhere else. -/
theorem exists_ends (k : Fin (count rows cols)) : ∃ former latter : Attachment rows cols,
    former.Adjoins latter ∧ ∀ place, attached? place = some k ↔ place = former ∨ place = latter := by
  rcases exists_horizontal_or_vertical k with ⟨row, col, rfl⟩ | ⟨level, col, rfl⟩
  · exact ⟨_, _, .beside rfl, fun place => attached?_eq_horizontal_iff⟩
  · obtain ⟨former, hformer⟩ := exists_upperEnd level col
    obtain ⟨latter, hlatter⟩ := exists_lowerEnd level col
    exact ⟨former, latter, hformer.adjoins hlatter, fun place => hformer.attached?_eq_iff hlatter⟩

/-- Two places that adjoin are attached to one channel. -/
theorem exists_channel {former latter : Attachment rows cols} (hadjoins : former.Adjoins latter) :
    ∃ k, attached? former = some k ∧ attached? latter = some k := by
  have hvertical : ∀ level : Fin (levels rows), ∀ col, UpperEnd level col former →
      LowerEnd level col latter → ∃ k, attached? former = some k ∧ attached? latter = some k :=
    fun level col hupper hlower => ⟨vertical level col,
      attached?_eq_vertical_iff.mpr (Or.inl hupper), attached?_eq_vertical_iff.mpr (Or.inr hlower)⟩
  cases hadjoins with
  | @beside row left right hnext =>
      have hleft : left.val < cols - 1 := by omega
      have hright : right = ⟨left.val + 1, by omega⟩ := Fin.ext hnext
      exact ⟨horizontal row ⟨left.val, hleft⟩, attached?_eq_horizontal_iff.mpr (Or.inl rfl),
        attached?_eq_horizontal_iff.mpr (Or.inr (congrArg (Attachment.port row · .left) hright))⟩
  | beneath hnext => exact hvertical (below _) _ (.node rfl) (.node hnext.symm)
  | input hfirst => exact hvertical (above _) _ (.input hfirst) (.node rfl)
  | output hlast => exact hvertical (below _) _ (.node rfl) (.output hlast)

/-- The outer sides of a row have no channels, and all other places have. -/
theorem attached?_eq_none_iff {place : Attachment rows cols} (hrows : 0 < rows) :
    attached? place = none ↔ (∃ row col, col.val = 0 ∧ place = .port row col .left) ∨
      ∃ row col, col.val + 1 = cols ∧ place = .port row col .right := by
  cases place with
  | input col =>
      have hsome : attached? (.input col) = some (vertical (above ⟨0, hrows⟩) col) :=
        getElem?_inputs_eq_some_iff.mpr ⟨⟨0, hrows⟩, rfl, rfl⟩
      simp [hsome]
  | output col =>
      have hlast : rows - 1 < rows := last_lt hrows
      have hsome : attached? (.output col) = some (vertical (below ⟨rows - 1, hlast⟩) col) :=
        getElem?_outputs_eq_some_iff.mpr ⟨⟨rows - 1, hlast⟩, Nat.sub_add_cancel hrows, rfl⟩
      simp [hsome]
  | port row col port =>
      cases port with
      | left => simp [attached?, ports]
      | right =>
          have hcol := col.isLt
          -- nothing lies to the right of a node exactly in the last column
          have hnone : attached? (.port row col .right) = none ↔ ¬ col.val + 1 < cols := by
            simp [attached?, ports]
          rw [hnone]
          constructor
          · intro hlast
            exact Or.inr ⟨row, col, by omega, rfl⟩
          · rintro (⟨_, _, -, hplace⟩ | ⟨_, _, hlast, hplace⟩)
            · cases hplace
            · cases hplace
              omega
      | up => simp [attached?, ports]
      | down => simp [attached?, ports]

end Edge

end NodeGrid

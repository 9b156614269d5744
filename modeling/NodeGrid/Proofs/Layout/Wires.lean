import Mathlib.Data.List.FinRange
import NodeGrid.Proofs.Layout.Edges

/-!
# The loops that wire a grid

A grid is wired by three loops.  Every turn makes a channel and writes it into the slots of the
nodes at its ends.  Nothing in a turn keeps a slot from being written twice, or the two ends of a
channel from getting different ones; that this does not happen is due to the order of the turns.
The number of a channel is that of its turn (`Edge.val_vertical_below`, `Edge.val_vertical_first`,
`Edge.val_vertical_last`), and a turn writes exactly the slots at which the channel with its number
lies.

So after any number of turns, the slots are those of the finished grid without the channels that
are still to come (`Wires.Agrees`).  Each kind of turn carries this on by one channel
(`Agrees.joinBeside`, `Agrees.joinBelow`, `Agrees.openInput`, `Agrees.openOutput`), and each loop by
all of its turns (`Agrees.joinRows`, `Agrees.joinColumns`, `Agrees.openColumns`).  When the loops are
over, all channels have been made (`Wires.agrees_ofSize`), and the nodes are placed between the
channels at their places (`Layout.build_eq`).
-/

namespace NodeGrid

/-- What holds after so many turns of a loop, if it holds at first and every turn keeps it. -/
theorem foldl_finRange {σ : Type} {motive : ℕ → σ → Prop} {count : ℕ} {turn : σ → Fin count → σ}
    {state : σ} (hstart : motive 0 state)
    (hturn : ∀ index state, motive index.val state → motive (index.val + 1) (turn state index)) :
    motive count ((List.finRange count).foldl turn state) := by
  induction count with
  | zero => exact hstart
  | succ count ih =>
      rw [List.finRange_succ_last, List.foldl_append, List.foldl_map]
      -- all turns but the last one are those of a shorter loop
      exact hturn (Fin.last count) _ (ih fun index state => hturn index.castSucc state)

namespace Wires

variable {rows cols : ℕ} {wires : Wires rows cols}

/-- The channel at a port of a node. -/
def port? (wires : Wires rows cols) (row : Fin rows) (col : Fin cols) (port : Port) : Option ℕ :=
  getElem wires.ports (row.val * cols + col.val) (index_lt row col) port

/-- Only the slot of the port is written. -/
theorem port?_attach (row otherRow : Fin rows) (col otherCol : Fin cols) (port other : Port) :
    (wires.attach row col port).port? otherRow otherCol other =
      if otherRow = row ∧ otherCol = col ∧ other = port then some wires.made
      else wires.port? otherRow otherCol other := by
  unfold port? attach
  by_cases hslot : otherRow = row ∧ otherCol = col
  · obtain ⟨rfl, rfl⟩ := hslot
    simp
  · -- the slots of different nodes have different numbers
    have hindex : row.val * cols + col.val ≠ otherRow.val * cols + otherCol.val := fun hsame =>
      hslot ((Edge.index_inj otherCol.isLt col.isLt hsame.symm).imp Fin.ext Fin.ext)
    rw [if_neg fun hall => hslot ⟨hall.1, hall.2.1⟩]
    simp [Vector.getElem_set_ne _ _ hindex]

/-! ## The invariant of the loops -/

/-- The channels with numbers below `made` are at the ports at which they are on the finished
grid, and no others are there. -/
def HasPorts (wires : Wires rows cols) (made : ℕ) : Prop :=
  ∀ row col port number, wires.port? row col port = some number ↔
    number < made ∧ ∃ k, Edge.ports row col port = some k ∧ k.val = number

/-- The wires are those of the finished grid as far as the first `made` channels go, which are
all that have been made.  Among these are those of the first `sources` input ports and of the first
`sinks` output ports. -/
structure Agrees (wires : Wires rows cols) (made sources sinks : ℕ) : Prop where
  made_eq : wires.made = made
  hasPorts : wires.HasPorts made
  inputs_eq : wires.inputs = ((Edge.inputs rows cols).map Fin.val).take sources
  outputs_eq : wires.outputs = ((Edge.outputs rows cols).map Fin.val).take sinks

theorem agrees_loose (rows cols : ℕ) : (loose rows cols).Agrees 0 0 0 where
  made_eq := rfl
  hasPorts row col port number := by simp [port?, loose]
  inputs_eq := rfl
  outputs_eq := rfl

/-- The channel made next is written into the slots of its places, and nowhere else. -/
theorem HasPorts.next {next : Wires rows cols} {k : Fin (Edge.count rows cols)}
    (hports : wires.HasPorts k.val)
    (hslots : ∀ row col port, next.port? row col port =
      if Edge.ports row col port = some k then some k.val else wires.port? row col port) :
    next.HasPorts (k.val + 1) := by
  intro row col port number
  rw [hslots]
  by_cases hslot : Edge.ports row col port = some k
  · rw [if_pos hslot, hslot]
    constructor
    · intro hnumber
      cases hnumber
      exact ⟨Nat.lt_succ_self _, k, rfl, rfl⟩
    · rintro ⟨-, j, hj, rfl⟩
      cases hj
      rfl
  · rw [if_neg hslot, hports]
    refine and_congr_left fun ⟨j, hj, hnumber⟩ => ?_
    -- a channel that lies elsewhere does not have the number of this turn
    have hne : number ≠ k.val := fun hsame =>
      hslot (hj.trans (congrArg some (Fin.ext (hnumber.trans hsame))))
    omega

/-! ## The turns -/

section Turns

variable {sources sinks : ℕ}

/-- A channel between two nodes is written into the two slots at which it lies. -/
theorem HasPorts.attach_attach {row otherRow : Fin rows} {col otherCol : Fin cols} {port other : Port}
    {k : Fin (Edge.count rows cols)} (hports : wires.HasPorts k.val) (hmade : wires.made = k.val)
    (hends : ∀ place, Edge.attached? place = some k ↔
      place = .port row col port ∨ place = .port otherRow otherCol other) :
    ((wires.attach row col port).attach otherRow otherCol other).HasPorts (k.val + 1) := by
  refine hports.next fun nodeRow nodeCol slot => ?_
  have hplace := (hends (.port nodeRow nodeCol slot)).trans or_comm
  change Edge.ports nodeRow nodeCol slot = some k ↔ _ at hplace
  rw [port?_attach, port?_attach, show (wires.attach row col port).made = k.val from hmade, hmade]
  simp only [hplace, Attachment.port.injEq, ite_or]

/-- A channel at the border of the grid is written into the slot of the one node at which it
lies. -/
theorem HasPorts.attach {row : Fin rows} {col : Fin cols} {port : Port}
    {k : Fin (Edge.count rows cols)} (hports : wires.HasPorts k.val) (hmade : wires.made = k.val)
    (hend : ∀ otherRow otherCol other, Edge.ports otherRow otherCol other = some k ↔
      otherRow = row ∧ otherCol = col ∧ other = port) :
    (wires.attach row col port).HasPorts (k.val + 1) := by
  refine hports.next fun otherRow otherCol other => ?_
  rw [port?_attach, hmade]
  simp only [hend]

/-- The turns of the first loop, which go through the horizontal channels. -/
theorem Agrees.joinBeside {row : Fin rows} {col : Fin (cols - 1)}
    (hagrees : wires.Agrees (row.val * (cols - 1) + col.val) sources sinks) :
    (wires.joinBeside row col).Agrees (row.val * (cols - 1) + (col.val + 1)) sources sinks where
  made_eq := congrArg (· + 1) hagrees.made_eq
  hasPorts := HasPorts.attach_attach (k := Edge.horizontal row col) hagrees.hasPorts
    hagrees.made_eq fun _ => Edge.attached?_eq_horizontal_iff
  inputs_eq := hagrees.inputs_eq
  outputs_eq := hagrees.outputs_eq

/-- The turns of the second loop, which go through the vertical channels between two rows. -/
theorem Agrees.joinBelow {row : Fin (rows - 1)} {col : Fin cols}
    (hagrees : wires.Agrees (Edge.horizontals rows cols + (row.val * cols + col.val)) sources sinks) :
    (wires.joinBelow row col).Agrees (Edge.horizontals rows cols + (row.val * cols + (col.val + 1)))
      sources sinks := by
  have hrow : row.val + 1 < rows := by omega
  let upper : Fin rows := ⟨row.val, by omega⟩
  have hnumber : Edge.horizontals rows cols + (row.val * cols + col.val) =
      (Edge.vertical (Edge.below upper) col).val := (Edge.val_vertical_below hrow col).symm
  rw [hnumber] at hagrees
  rw [← Nat.add_assoc, ← Nat.add_assoc, Nat.add_assoc (Edge.horizontals rows cols), hnumber]
  exact {
    made_eq := congrArg (· + 1) hagrees.made_eq
    hasPorts := hagrees.hasPorts.attach_attach hagrees.made_eq fun place =>
      Edge.UpperEnd.attached?_eq_iff (.node rfl) (.node rfl)
    inputs_eq := hagrees.inputs_eq
    outputs_eq := hagrees.outputs_eq }

/-- The numbers of the first channels of a list, when one more is made. -/
theorem take_succ_of_getElem? {n index : ℕ} {channels : List (Fin n)} {k : Fin n}
    (hindex : channels[index]? = some k) :
    (channels.map Fin.val).take index ++ [k.val] = (channels.map Fin.val).take (index + 1) := by
  rw [List.take_add_one, List.getElem?_map, hindex]
  rfl

/-- The turns of the third loop, which make two channels each. -/
theorem Agrees.openInput {col : Fin cols}
    (hagrees : wires.Agrees (Edge.horizontals rows cols + ((rows - 1) * cols + 2 * col.val))
      col.val sinks) (hrows : 0 < rows) :
    (wires.openInput ⟨0, hrows⟩ col).Agrees
      (Edge.horizontals rows cols + ((rows - 1) * cols + (2 * col.val + 1))) (col.val + 1) sinks := by
  rw [← Edge.val_vertical_first hrows] at hagrees
  have hnext : Edge.horizontals rows cols + ((rows - 1) * cols + (2 * col.val + 1)) =
      (Edge.vertical (Edge.above ⟨0, hrows⟩) col).val + 1 :=
    congrArg (· + 1) (Edge.val_vertical_first hrows col).symm
  -- the channel that is made next lies between the input port and the node below it
  have hends : ∀ place, Edge.attached? place = some (Edge.vertical (Edge.above ⟨0, hrows⟩) col) ↔
      place = .input col ∨ place = .port ⟨0, hrows⟩ col .up := fun place =>
    Edge.UpperEnd.attached?_eq_iff (.input rfl) (.node rfl)
  have hinput : (Edge.inputs rows cols)[col.val]? = some _ := (hends (.input col)).mpr (Or.inl rfl)
  rw [hnext]
  exact {
    made_eq := congrArg (· + 1) hagrees.made_eq
    hasPorts := hagrees.hasPorts.attach hagrees.made_eq fun row otherCol port => by
      simpa [Edge.attached?] using hends (.port row otherCol port)
    inputs_eq := by
      change wires.inputs ++ [wires.made] = _
      rw [hagrees.inputs_eq, hagrees.made_eq, take_succ_of_getElem? hinput]
    outputs_eq := hagrees.outputs_eq }

theorem Agrees.openOutput {col : Fin cols}
    (hagrees : wires.Agrees (Edge.horizontals rows cols + ((rows - 1) * cols + (2 * col.val + 1)))
      sources col.val) (hrows : 0 < rows) :
    (wires.openOutput ⟨rows - 1, last_lt hrows⟩ col).Agrees
      (Edge.horizontals rows cols + ((rows - 1) * cols + 2 * (col.val + 1))) sources
      (col.val + 1) := by
  let last : Fin rows := ⟨rows - 1, last_lt hrows⟩
  rw [← Edge.val_vertical_last hrows] at hagrees
  have hnext : Edge.horizontals rows cols + ((rows - 1) * cols + 2 * (col.val + 1)) =
      (Edge.vertical (Edge.below last) col).val + 1 :=
    congrArg (· + 1) (Edge.val_vertical_last hrows col).symm
  -- and this one between the last node of the column and its output port
  have hends : ∀ place, Edge.attached? place = some (Edge.vertical (Edge.below last) col) ↔
      place = .port last col .down ∨ place = .output col := fun place =>
    Edge.UpperEnd.attached?_eq_iff (.node rfl) (.output (Nat.sub_add_cancel hrows))
  have houtput : (Edge.outputs rows cols)[col.val]? = some _ :=
    (hends (.output col)).mpr (Or.inr rfl)
  rw [hnext]
  exact {
    made_eq := congrArg (· + 1) hagrees.made_eq
    hasPorts := hagrees.hasPorts.attach hagrees.made_eq fun row otherCol port => by
      simpa [Edge.attached?] using hends (.port row otherCol port)
    inputs_eq := hagrees.inputs_eq
    outputs_eq := by
      change wires.outputs ++ [wires.made] = _
      rw [hagrees.outputs_eq, hagrees.made_eq, take_succ_of_getElem? houtput] }

end Turns

/-! ## The loops -/

/-- The first loop ends when all horizontal channels have been made. -/
theorem Agrees.joinRows (hagrees : wires.Agrees 0 0 0) :
    wires.joinRows.Agrees (Edge.horizontals rows cols) 0 0 := by
  refine foldl_finRange
    (motive := fun row (wires : Wires rows cols) => wires.Agrees (row * (cols - 1)) 0 0) ?_ ?_
  · simpa using hagrees
  · intro row wires hrow
    rw [Nat.succ_mul]
    exact foldl_finRange (motive := fun col (wires : Wires rows cols) =>
        wires.Agrees (row.val * (cols - 1) + col) 0 0)
      hrow fun col wires hcol => hcol.joinBeside

/-- The second loop ends when all rows are joined. -/
theorem Agrees.joinColumns (hagrees : wires.Agrees (Edge.horizontals rows cols) 0 0) :
    wires.joinColumns.Agrees (Edge.horizontals rows cols + (rows - 1) * cols) 0 0 := by
  refine foldl_finRange (motive := fun row (wires : Wires rows cols) =>
      wires.Agrees (Edge.horizontals rows cols + row * cols) 0 0) ?_ ?_
  · simpa using hagrees
  · intro row wires hrow
    rw [Nat.succ_mul]
    exact foldl_finRange (motive := fun col (wires : Wires rows cols) =>
        wires.Agrees (Edge.horizontals rows cols + (row.val * cols + col)) 0 0)
      hrow fun col wires hcol => hcol.joinBelow

theorem Agrees.openColumns
    (hagrees : wires.Agrees (Edge.horizontals rows cols + (rows - 1) * cols) 0 0) :
    wires.openColumns.Agrees (Edge.count rows cols) cols cols := by
  by_cases hrows : 0 < rows
  · rw [Edge.count, Edge.levels_mul hrows, Wires.openColumns, dif_pos hrows]
    exact foldl_finRange (motive := fun col (wires : Wires rows cols) =>
        wires.Agrees (Edge.horizontals rows cols + ((rows - 1) * cols + 2 * col)) col col)
      hagrees fun col wires hcol => (hcol.openInput hrows).openOutput hrows
  · -- without rows there are no ports, and nothing has been made
    obtain rfl : rows = 0 := by omega
    rw [Wires.openColumns, dif_neg hrows]
    have hcount : Edge.count 0 cols = Edge.horizontals 0 cols + (0 - 1) * cols := by
      simp [Edge.count, Edge.levels, Edge.horizontals]
    rw [hcount]
    exact {
      made_eq := hagrees.made_eq
      hasPorts := hagrees.hasPorts
      inputs_eq := by simpa [Edge.inputs] using hagrees.inputs_eq
      outputs_eq := by simpa [Edge.outputs] using hagrees.outputs_eq }

/-- The loops make all channels of the grid. -/
theorem agrees_ofSize (rows cols : ℕ) :
    (ofSize rows cols).Agrees (Edge.count rows cols) cols cols :=
  (agrees_loose rows cols).joinRows.joinColumns.openColumns

theorem made_ofSize (rows cols : ℕ) : (ofSize rows cols).made = Edge.count rows cols :=
  (agrees_ofSize rows cols).made_eq

/-- In the end, every slot holds the channel at its place. -/
theorem port?_ofSize (row : Fin rows) (col : Fin cols) (port : Port) :
    (ofSize rows cols).port? row col port = (Edge.ports row col port).map Fin.val := by
  refine Option.ext fun number => ?_
  rw [(agrees_ofSize rows cols).hasPorts, Option.map_eq_some_iff, and_iff_right_iff_imp]
  rintro ⟨k, -, rfl⟩
  exact k.isLt

theorem inputs_ofSize (rows cols : ℕ) :
    (ofSize rows cols).inputs = (Edge.inputs rows cols).map Fin.val := by
  rw [(agrees_ofSize rows cols).inputs_eq, List.take_of_length_le]
  rw [List.length_map]
  exact Edge.length_inputs_le

theorem outputs_ofSize (rows cols : ℕ) :
    (ofSize rows cols).outputs = (Edge.outputs rows cols).map Fin.val := by
  rw [(agrees_ofSize rows cols).outputs_eq, List.take_of_length_le]
  rw [List.length_map]
  exact Edge.length_outputs_le

/-- Channels that have been made are found by their numbers. -/
theorem channel?_val {made : ℕ} (k : Fin made) : channel? made k.val = some k :=
  dif_pos k.isLt

theorem bind_channel? {made : ℕ} (k : Option (Fin made)) :
    (k.map Fin.val).bind (channel? made) = k := by
  cases k with
  | none => rfl
  | some k => exact channel?_val k

theorem filterMap_channel? {made : ℕ} (channels : List (Fin made)) :
    (channels.map Fin.val).filterMap (channel? made) = channels := by
  rw [List.filterMap_map]
  exact (List.filterMap_congr fun k _ => channel?_val k).trans List.filterMap_some

end Wires

/-! ## The grid that is built -/

namespace Layout

/-- The positions of a grid, row by row. -/
def positions (rows cols : ℕ) : List (Fin rows × Fin cols) :=
  (List.finRange rows).flatMap fun row => (List.finRange cols).map fun col => (row, col)

/-- The numbers of the first `count` rows. -/
theorem flatMap_range (cols count : ℕ) :
    (List.range count).flatMap (fun row => (List.range cols).map (row * cols + ·)) =
      List.range (count * cols) := by
  induction count with
  | zero => simp
  | succ count ih =>
      rw [List.range_succ, List.flatMap_append, ih, Nat.succ_mul, List.range_add]
      simp

theorem map_positions (rows cols : ℕ) :
    (positions rows cols).map (fun (row, col) => row.val * cols + col.val) =
      List.range (rows * cols) := by
  have hrow : ∀ row : ℕ, (List.finRange cols).map (fun col => row * cols + col.val) =
      (List.range cols).map (row * cols + ·) := by
    intro row
    rw [← List.map_coe_finRange_eq_range, List.map_map]
    rfl
  calc (positions rows cols).map (fun (row, col) => row.val * cols + col.val)
    _ = (List.finRange rows).flatMap fun row => (List.range cols).map (row.val * cols + ·) := by
        simp only [positions, List.map_flatMap, List.map_map, Function.comp_def, hrow]
    _ = ((List.finRange rows).map Fin.val).flatMap fun row =>
          (List.range cols).map (row * cols + ·) := by
        rw [List.flatMap_map]
    _ = (List.range rows).flatMap fun row => (List.range cols).map (row * cols + ·) := by
        rw [List.map_coe_finRange_eq_range]
    _ = List.range (rows * cols) := flatMap_range cols rows

theorem length_positions (rows cols : ℕ) : (positions rows cols).length = rows * cols := by
  have hlength := congrArg List.length (map_positions rows cols)
  rwa [List.length_map, List.length_range] at hlength

/-- Positions are listed in the order of their numbers. -/
theorem index_of_positions {rows cols index : ℕ} {row : Fin rows} {col : Fin cols}
    (hindex : (positions rows cols)[index]? = some (row, col)) :
    index = row.val * cols + col.val := by
  have hmap := congrArg (·[index]?) (map_positions rows cols)
  simp only [List.getElem?_map, hindex, Option.map_some] at hmap
  obtain ⟨hlt, hrange⟩ := List.getElem?_eq_some_iff.mp hmap.symm
  rwa [List.getElem_range] at hrange

/-- The grid with the given nodes. -/
def gridOf (layout : Layout) (nodes : List (Node (Edge.count layout.rows layout.cols))) : Grid where
  rows := layout.rows
  cols := layout.cols
  channels := Edge.count layout.rows layout.cols
  wiring := {
    capacities := .replicate _ layout.capacity
    nodes
    inputs := Edge.inputs layout.rows layout.cols
    outputs := Edge.outputs layout.rows layout.cols }

theorem capacities_gridOf (layout : Layout) (nodes : List (Node (Edge.count layout.rows layout.cols)))
    (k : Fin (Edge.count layout.rows layout.cols)) :
    (layout.gridOf nodes).wiring.capacities.get k = layout.capacity :=
  Vector.getElem_replicate k.isLt

/-- The node at a position, between the channels that are at its place. -/
def buildNode (layout : Layout) (row : Fin layout.rows) (col : Fin layout.cols) :
    Except LayoutError (Node (Edge.count layout.rows layout.cols)) :=
  layout.placeNode row.val col.val (Edge.ports row col)

/-- The slots of a grid, each with the number of its position. -/
theorem zipIdx_ports {rows cols : ℕ} (wires : Wires rows cols) :
    wires.ports.toList.zipIdx =
      (positions rows cols).map fun (row, col) =>
        (wires.port? row col, row.val * cols + col.val) := by
  refine List.ext_getElem (by simp [length_positions]) fun index hslot hposition => ?_
  rw [List.length_map] at hposition
  obtain ⟨⟨row, col⟩, hlisted⟩ : ∃ position, (positions rows cols)[index] = position := ⟨_, rfl⟩
  have hindex : index = row.val * cols + col.val :=
    index_of_positions ((List.getElem?_eq_getElem hposition).trans (congrArg some hlisted))
  subst hindex
  rw [List.getElem_map, hlisted, List.getElem_zipIdx, Nat.zero_add]
  rfl

/-- The loops put the channels where the grid has them, so every node is placed between the
channels that are at its place. -/
theorem build_eq (layout : Layout) : layout.build = (do
    checkPlacements layout.rows layout.cols [] layout.placements
    let nodes ← (positions layout.rows layout.cols).mapM fun (row, col) => layout.buildNode row col
    return layout.gridOf nodes) := by
  have hmade := Wires.made_ofSize layout.rows layout.cols
  have hports := @Wires.port?_ofSize layout.rows layout.cols
  have hinputs := Wires.inputs_ofSize layout.rows layout.cols
  have houtputs := Wires.outputs_ofSize layout.rows layout.cols
  unfold build
  simp only [zipIdx_ports, List.mapM_map]
  -- nothing else is used of the wires
  generalize Wires.ofSize layout.rows layout.cols = wires at hmade hports hinputs houtputs ⊢
  obtain ⟨made, ports, inputs, outputs⟩ := wires
  obtain rfl : made = Edge.count layout.rows layout.cols := hmade
  obtain rfl : inputs = _ := hinputs
  obtain rfl : outputs = _ := houtputs
  simp only [Function.comp_def, Edge.index_div, Edge.index_mod, Fin.is_lt, hports,
    Wires.bind_channel?, Wires.filterMap_channel?]
  rfl

end Layout

end NodeGrid

import NodeGrid.Bench

/-!
# Layouts

A layout places programs on a grid of nodes.  Between any two neighbours lies
one channel, which both of them read and write: `RIGHT` of a node and `LEFT` of
the next node in its row are the same channel, and so are `DOWN` of a node and
`UP` of the one below.  The channels above the first row are the input ports of
the grid, those below the last row its output ports.  The capacity is the same
everywhere.

The channels are numbered in the order in which they are made.  First each node is
joined to the next one in its row, row by row; then each node is joined to the one
below it, row by row; then every column gets its input port and its output port.
-/

namespace NodeGrid

open Assembly (CompileError)

/-- The capacity of channels when none is given. -/
def defaultCapacity : Nat := 1

/-- A program for the node at a position. -/
structure Placement where
  row : Nat
  col : Nat
  source : String
deriving DecidableEq

/-- The size of a grid and the programs on it. -/
structure Layout where
  rows : Nat
  cols : Nat
  capacity : Nat
  placements : List Placement
deriving DecidableEq

/-- Why a layout has no grid. -/
inductive LayoutError where
  | outOfBounds (row col rows cols : Nat)
  | occupied (row col : Nat)
  /-- The program at this position cannot be assembled. -/
  | compile (row col : Nat) (error : CompileError)
deriving DecidableEq

/-- What is reported when a layout has no grid. -/
def LayoutError.message : LayoutError → String
  | .outOfBounds row col rows cols =>
    s!"node ({row}, {col}) is outside of the {rows}x{cols} grid"
  | .occupied row col => s!"node ({row}, {col}) is defined twice"
  | .compile row col error => s!"node ({row}, {col}): " ++ error.message

/-! ## Wires -/

/-- A position in a table of `rows` rows has a number below its size. -/
theorem index_lt {rows width : Nat} (row : Fin rows) (col : Fin width) :
    row.val * width + col.val < rows * width := by
  have hcol := col.isLt
  have hnext : row.val * width + width ≤ rows * width := by
    rw [← Nat.succ_mul]
    exact Nat.mul_le_mul_right width row.isLt
  omega

/-- Where there are rows, there is a last one. -/
theorem last_lt {rows : Nat} (hrows : 0 < rows) : rows - 1 < rows :=
  Nat.sub_lt hrows Nat.one_pos

/-- What is connected to what while a grid is wired.  Channels go by their numbers. -/
structure Wires (rows cols : Nat) where
  /-- How many channels have been made. -/
  made : Nat
  /-- The channels around the nodes, row by row. -/
  ports : Vector (Port → Option Nat) (rows * cols)
  /-- The channels of the input ports so far. -/
  inputs : List Nat
  /-- The channels of the output ports so far. -/
  outputs : List Nat

namespace Wires

variable {rows cols : Nat}

/-- Nothing is connected. -/
def loose (rows cols : Nat) : Wires rows cols where
  made := 0
  ports := .replicate _ fun _ => none
  inputs := []
  outputs := []

/-- Attaches the channel that is made next at a port, in place of what was there. -/
def attach (wires : Wires rows cols) (row : Fin rows) (col : Fin cols) (port : Port) :
    Wires rows cols :=
  let index := row.val * cols + col.val
  have hindex : index < rows * cols := index_lt row col
  let ports := getElem wires.ports index hindex
  { wires with
    ports := wires.ports.set index
      (fun other => if other = port then some wires.made else ports other) hindex }

/-- A new channel from a node to the next one in its row. -/
def joinBeside (wires : Wires rows cols) (row : Fin rows) (col : Fin (cols - 1)) :
    Wires rows cols :=
  let wires := wires.attach row ⟨col, Nat.lt_of_lt_pred col.isLt⟩ .right
  let wires := wires.attach row ⟨col + 1, Nat.add_lt_of_lt_sub col.isLt⟩ .left
  { wires with made := wires.made + 1 }

/-- A new channel from a node to the one below it. -/
def joinBelow (wires : Wires rows cols) (row : Fin (rows - 1)) (col : Fin cols) :
    Wires rows cols :=
  let wires := wires.attach ⟨row, Nat.lt_of_lt_pred row.isLt⟩ col .down
  let wires := wires.attach ⟨row + 1, Nat.add_lt_of_lt_sub row.isLt⟩ col .up
  { wires with made := wires.made + 1 }

/-- A new channel above a node, which is that of the next input port. -/
def openInput (wires : Wires rows cols) (row : Fin rows) (col : Fin cols) : Wires rows cols :=
  let wires := wires.attach row col .up
  { wires with made := wires.made + 1, inputs := wires.inputs ++ [wires.made] }

/-- A new channel below a node, which is that of the next output port. -/
def openOutput (wires : Wires rows cols) (row : Fin rows) (col : Fin cols) : Wires rows cols :=
  let wires := wires.attach row col .down
  { wires with made := wires.made + 1, outputs := wires.outputs ++ [wires.made] }

/-- Joins the nodes of every row. -/
def joinRows (wires : Wires rows cols) : Wires rows cols :=
  (List.finRange rows).foldl (fun wires row =>
    (List.finRange (cols - 1)).foldl (fun wires col => wires.joinBeside row col) wires) wires

/-- Joins every row with the next one. -/
def joinColumns (wires : Wires rows cols) : Wires rows cols :=
  (List.finRange (rows - 1)).foldl (fun wires row =>
    (List.finRange cols).foldl (fun wires col => wires.joinBelow row col) wires) wires

/-- Opens the input port and the output port of every column. -/
def openColumns (wires : Wires rows cols) : Wires rows cols :=
  if hrows : 0 < rows then
    (List.finRange cols).foldl (fun wires col =>
      (wires.openInput ⟨0, hrows⟩ col).openOutput ⟨rows - 1, last_lt hrows⟩ col) wires
  else wires

/-- The wires of a grid. -/
def ofSize (rows cols : Nat) : Wires rows cols :=
  (loose rows cols).joinRows.joinColumns.openColumns

/-- The channel with a number, if so many have been made. -/
def channel? (made number : Nat) : Option (Fin made) :=
  if hnumber : number < made then some ⟨number, hnumber⟩ else none

end Wires

/-! ## Building the grid -/

/-- A grid of nodes with the channels between them. -/
structure Grid where
  rows : Nat
  cols : Nat
  /-- How many channels there are. -/
  channels : Nat
  /-- The nodes row by row. -/
  wiring : Wiring channels

/-- The node at a position of the grid. -/
def Grid.node? (grid : Grid) (row col : Nat) : Option (Node grid.channels) :=
  if row < grid.rows ∧ col < grid.cols then grid.wiring.nodes[row * grid.cols + col]? else none

namespace Layout

/-- Checks placements in order.  The positions `taken` are those of the
placements before them. -/
def checkPlacements (rows cols : Nat) (taken : List (Nat × Nat)) :
    List Placement → Except LayoutError Unit
  | [] => .ok ()
  | placement :: rest =>
    if placement.row < rows ∧ placement.col < cols then
      if (placement.row, placement.col) ∈ taken then
        .error (.occupied placement.row placement.col)
      else
        checkPlacements rows cols ((placement.row, placement.col) :: taken) rest
    else
      .error (.outOfBounds placement.row placement.col rows cols)

/-- The program at a position. -/
def source? (layout : Layout) (row col : Nat) : Option String :=
  (layout.placements.find? fun placement =>
    placement.row == row && placement.col == col).map Placement.source

/-- The name of the node at a position. -/
def nodeName (row col : Nat) : String :=
  s!"{row}:{col}"

/-- The node at a position, between the given channels; inert where no program is placed. -/
def placeNode {n : Nat} (layout : Layout) (row col : Nat) (ports : Port → Option (Fin n)) :
    Except LayoutError (Node n) :=
  let name := nodeName row col
  match layout.source? row col with
  | none => .ok (.inert name ports)
  | some source => (Node.ofSource name ports source).mapError (.compile row col)

/-- The grid of a layout.  Placements are checked first, in their order; then
the programs are assembled row by row. -/
def build (layout : Layout) : Except LayoutError Grid := do
  checkPlacements layout.rows layout.cols [] layout.placements
  let wires := Wires.ofSize layout.rows layout.cols
  let nodes ← wires.ports.toList.zipIdx.mapM fun (ports, index) =>
    layout.placeNode (index / layout.cols) (index % layout.cols) fun port =>
      (ports port).bind (Wires.channel? wires.made)
  return {
    rows := layout.rows
    cols := layout.cols
    channels := wires.made
    wiring := {
      capacities := .replicate _ layout.capacity
      nodes
      inputs := wires.inputs.filterMap (Wires.channel? wires.made)
      outputs := wires.outputs.filterMap (Wires.channel? wires.made) } }

end Layout

end NodeGrid

import NodeGrid.Decimal.Rounding
import NodeGrid.Fabric
import NodeGrid.Node
import NodeGrid.Text.Lines

/-!
# What a node shows

The one-line state of a node, its source with the current line marked, and the
share of cycles in which it did not complete an instruction.
-/

namespace NodeGrid.Node

variable {n : Nat}

/-- The state of the node in one line. -/
def text (node : Node n) : String :=
  "[" ++ node.name ++ ": " ++ node.status.name ++ "]  ip: " ++
    String.ofList (Text.writeCount node.ip) ++ "  acc: " ++
    String.ofList (Text.writeValue node.acc) ++ "  bak: " ++
    String.ofList (Text.writeValue node.bak)

/-- The source line of the instruction that was started last, from zero. -/
def currentLine? (node : Node n) : Option Nat :=
  node.compilation.bind fun compilation => compilation.lineMap[node.ip]?

/-- A line of a listing, with or without the mark. -/
def markedLine (marked : Bool) (line : List Char) : List Char :=
  (if marked then '>' else ' ') :: ' ' :: line

/-- The source line by line, with the current line marked. -/
def listing (node : Node n) : List Char :=
  Text.unlines ((Text.displayLines node.source.toList).mapIdx fun index line =>
    markedLine (node.currentLine? == some index) line)

/-- The share of the requested cycles in which no instruction was completed. -/
def idleness? (node : Node n) : Option Decimal.Binary :=
  if node.requested = 0 then none
  else some (Decimal.Binary.ofQuotient node.executed node.requested).complement

/-- Shares are shown with six decimals. -/
def idlenessText? (node : Node n) : Option (List Char) :=
  node.idleness?.map (Decimal.writeFixed 6)

/-- The value last offered on the channel behind the port, by either end. -/
def lastSent? {τ : Type} (node : Node n) (fabric : Fabric τ n) (port : Port) : Option Int64 :=
  (node.ports port).bind fun k => (fabric.channel k).lastSent

end NodeGrid.Node

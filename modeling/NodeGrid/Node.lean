import NodeGrid.Assembly.Compilation

/-!
# Nodes

A node is a small processor: an accumulator, a backup register, an instruction
pointer, and up to four ports that lead to channels.  It runs one program,
which can be replaced at any time.

A step of a node may have to wait in a channel.  The port operation that it
waits with is then *pending*.  If the program is replaced meanwhile, nobody is
interested in the outcome any more, but the channel still counts on the node:
the operation is *abandoned*, and leaves the channel when it is withdrawn or
when it has taken place, which then has no effect on the node.
-/

namespace NodeGrid

open Assembly (CompileError Compilation)

/-- What a participant of a network is doing. -/
inductive Status where
  | idle
  /-- Waits for a value on a port. -/
  | read
  /-- Waits for a port to accept a value. -/
  | write
  | run
deriving DecidableEq

/-- The abbreviation shown in reports. -/
def Status.name : Status → String
  | .idle => "IDLE"
  | .read => "READ"
  | .write => "WRTE"
  | .run => "RUN"

/-- The part of an instruction that waits in a channel. -/
inductive PortOperation where
  | read (port : Port)
  | write (port : Port) (value : Int64)
deriving BEq, ReflBEq, LawfulBEq

/-- A processor whose ports lead to some of `n` channels. -/
structure Node (n : Nat) where
  name : String
  /-- The channels behind the ports.  Two ports may share a channel. -/
  ports : Port → Option (Fin n)
  /-- The text of the program, also if it could not be assembled. -/
  source : String
  /-- The assembled program, if there is one. -/
  compilation : Option Compilation
  acc : Int64
  bak : Int64
  /-- The instruction that was started last. -/
  ip : Nat
  /-- The instruction to start next. -/
  nextIp : Nat
  status : Status
  /-- The number of cycles the node was asked for since its program was loaded. -/
  requested : Nat
  /-- The number of instructions it completed in them. -/
  executed : Nat
  /-- The port operation the current step waits with. -/
  pending : Option PortOperation
  /-- The port operation that a replaced program left waiting. -/
  abandoned : Option PortOperation

namespace Node

variable {n : Nat}

/-- A node without a program. -/
def inert (name : String) (ports : Port → Option (Fin n)) : Node n where
  name
  ports
  source := ""
  compilation := none
  acc := 0
  bak := 0
  ip := 0
  nextIp := 0
  status := .idle
  requested := 0
  executed := 0
  pending := none
  abandoned := none

/-- The instructions of the node; none without a program. -/
def program (node : Node n) : Program :=
  match node.compilation with
  | some compilation => compilation.program
  | none => []

/-- Whether the port leads to a channel. -/
def isConnected (node : Node n) (port : Port) : Bool :=
  (node.ports port).isSome

/-! ## Loading a program -/

/-- The error for the first port that the program uses and the node lacks. -/
def missingPort? (node : Node n) (compilation : Compilation) : Option CompileError :=
  (compilation.program.zip compilation.lineMap).findSome? fun (instruction, line) =>
    (instruction.ports.find? fun port => !node.isConnected port).map fun port =>
      ⟨line + 1, .unconnectedPort port⟩

/-- The program that a source text stands for on this node. -/
def assemble (node : Node n) (source : String) : Except CompileError Compilation := do
  let compilation ← Assembly.compile source
  match node.missingPort? compilation with
  | some error => .error error
  | none => .ok compilation

/-- Forgets the execution of the old program.  A pending port operation is
abandoned. -/
def reset (node : Node n) : Node n :=
  { node with
    acc := 0
    bak := 0
    ip := 0
    nextIp := 0
    status := .idle
    requested := 0
    executed := 0
    pending := none
    abandoned := node.pending.or node.abandoned }

/-- Replaces the program.  A text that cannot be assembled leaves the node
without a program. -/
def load (node : Node n) (source : String) : Node n :=
  { node.reset with
    source
    compilation := (node.assemble source).toOption }

/-- A new node with a program. -/
def ofSource (name : String) (ports : Port → Option (Fin n)) (source : String) :
    Except CompileError (Node n) := do
  let node := inert name ports
  let _ ← node.assemble source
  return node.load source

end Node

end NodeGrid

import NodeGrid.Fabric
import NodeGrid.Node

/-!
# How a node executes

A step starts the next instruction and runs until the instruction is complete
or has to wait in a channel.  A waiting instruction goes on when its task is
resumed, perhaps to wait once more: an instruction that reads from one port and
writes to another can wait twice.
-/

namespace NodeGrid

/-- How far a step has come. -/
inductive Progress where
  /-- The step is over. -/
  | settled
  /-- The step waits in a channel and goes on when it is resumed. -/
  | pending
deriving DecidableEq

/-- Where an instruction at `ip` leads that jumps by `offset`.  Both are signed
words, and so is their sum: beyond the largest word it stays the largest. -/
def relativeTarget (ip : Nat) (offset : Int64) : Nat :=
  (min ((Int64.ofNat ip).toInt + offset.toInt) Int64.maxValue.toInt).toNat

namespace Node

variable {τ : Type} {n : Nat}

/-- The channel behind a port. -/
def channel (node : Node n) (port : Port) : Except Fault (Fin n) :=
  match node.ports port with
  | some k => .ok k
  | none => .error (.unconnected port)

/-- The instruction that was started last. -/
def current (node : Node n) : Except Fault Instruction :=
  match node.program[node.ip]? with
  | some instruction => .ok instruction
  | none => .error .noInstruction

/-- Completes an instruction.  The next one is at `target`, or else the one
that follows; the first one follows the last. -/
def finish (node : Node n) (target : Option Nat) : Node n :=
  { node with
    nextIp :=
      if node.program.isEmpty then node.nextIp
      else target.getD (node.ip + 1) % node.program.length
    status := .run
    executed := node.executed + 1 }

/-- The state after an operation without operands. -/
def applyPlain (node : Node n) : Plain → Node n
  | .nop => node
  | .neg => { node with acc := -node.acc }
  | .sav => { node with bak := node.acc }
  | .swp => { node with acc := node.bak, bak := node.acc }

/-- Writes the value of a move. -/
def write (node : Node n) (target : Register) (value : Int64) (task : τ) (fabric : Fabric τ n) :
    Except Fault (Progress × Node n × Fabric τ n) :=
  match target with
  | .acc => .ok (.settled, finish { node with acc := value } none, fabric)
  | .nil => .ok (.settled, node.finish none, fabric)
  | .port port => do
    let k ← node.channel port
    match fabric.send k value task with
    | (.delivered, fabric) => .ok (.settled, node.finish none, fabric)
    | (.blocked, fabric) =>
      .ok (.pending, { node with status := .write, pending := some (.write port value) }, fabric)

/-- Goes on with an instruction whose source has been read. -/
def afterRead (node : Node n) (value : Int64) (task : τ) (fabric : Fabric τ n) :
    Except Fault (Progress × Node n × Fabric τ n) := do
  match ← node.current with
  | .unary .add _ =>
    .ok (.settled, finish { node with acc := node.acc + value } none, fabric)
  | .unary .sub _ =>
    .ok (.settled, finish { node with acc := node.acc - value } none, fabric)
  | .unary .jro _ =>
    .ok (.settled, node.finish (some (relativeTarget node.ip value)), fabric)
  | .move _ target => node.write target value task fabric
  | instruction => .error (.noSource instruction)

/-- Reads the source of an instruction and goes on with it. -/
def read (node : Node n) (source : Operand) (task : τ) (fabric : Fabric τ n) :
    Except Fault (Progress × Node n × Fabric τ n) :=
  match source with
  | .immediate value => node.afterRead value task fabric
  | .register .acc => node.afterRead node.acc task fabric
  | .register .nil => node.afterRead 0 task fabric
  | .register (.port port) => do
    let k ← node.channel port
    match ← fabric.receive k task with
    | (.received value, fabric) => node.afterRead value task fabric
    | (.blocked, fabric) =>
      .ok (.pending, { node with status := .read, pending := some (.read port) }, fabric)

/-- Starts the instruction at the instruction pointer. -/
def execute (node : Node n) (task : τ) (fabric : Fabric τ n) :
    Except Fault (Progress × Node n × Fabric τ n) := do
  match ← node.current with
  | .plain operation => .ok (.settled, (node.applyPlain operation).finish none, fabric)
  | .unary _ source => node.read source task fabric
  | .move source _ => node.read source task fabric
  | .jump condition target =>
    let taken := if condition.holds node.acc then some target else none
    .ok (.settled, node.finish taken, fabric)

/-- Begins a step.  A node without instructions is done at once. -/
def step (node : Node n) (task : τ) (fabric : Fabric τ n) :
    Except Fault (Progress × Node n × Fabric τ n) :=
  let node := { node with requested := node.requested + 1 }
  if node.program.isEmpty then
    .ok (.settled, node, fabric)
  else
    execute { node with ip := node.nextIp } task fabric

/-- Ends an abandoned operation: a value read is dropped, a value to write is
written. -/
def finishAbandoned (node : Node n) (fabric : Fabric τ n) :
    Except Fault (Progress × Node n × Fabric τ n) :=
  match node.abandoned with
  | some (.read port) => do
    let (_, fabric) ← fabric.finishReceive (← node.channel port)
    return (.settled, { node with abandoned := none }, fabric)
  | some (.write port value) => do
    let k ← node.channel port
    return (.settled, { node with abandoned := none }, fabric.finishSend k value)
  | none => .ok (.settled, node, fabric)

/-- Goes on with a step that has been woken. -/
def resume (node : Node n) (task : τ) (fabric : Fabric τ n) :
    Except Fault (Progress × Node n × Fabric τ n) :=
  match node.pending with
  | some (.read port) => do
    let (value, fabric) ← fabric.finishReceive (← node.channel port)
    afterRead { node with pending := none } value task fabric
  | some (.write port value) => do
    let k ← node.channel port
    return (.settled, finish { node with pending := none } none, fabric.finishSend k value)
  | none => node.finishAbandoned fabric

/-- Takes an abandoned operation out of its channel; `none` when there is none
or the other end has committed itself to it. -/
def withdraw [DecidableEq τ] (node : Node n) (task : τ) (fabric : Fabric τ n) :
    Except Fault (Option (Node n × Fabric τ n)) := do
  match node.abandoned with
  | some (.read port) =>
    let k ← node.channel port
    return (fabric.cancelReceive k task).map fun fabric => ({ node with abandoned := none }, fabric)
  | some (.write port _) =>
    let k ← node.channel port
    return (fabric.cancelSend k task).map fun fabric => ({ node with abandoned := none }, fabric)
  | none => return none

/-- Counts a cycle in which the last step still waits. -/
def stall (node : Node n) : Node n :=
  { node with requested := node.requested + 1 }

/-! ## The load that resuming a node leaves

A woken node that waited with a read may go on to wait with a write.  It then
moves from the ready tasks to the waiting ones, but it has no read left to go
on from.  With such reads counted in, resuming never raises the load.
-/

/-- Counts a pending read, after which a step can come to wait once more. -/
def debt (node : Node n) : Nat :=
  match node.pending with
  | some (.read _) => 1
  | _ => 0

theorem load_write_le {node after : Node n} {target : Register} {value : Int64} {task : τ}
    {fabric rest : Fabric τ n} {progress : Progress} (hpending : node.pending = none)
    (hwrite : node.write target value task fabric = .ok (progress, after, rest)) :
    rest.load + after.debt ≤ fabric.load + 1 := by
  unfold write at hwrite
  cases target with
  | acc =>
    cases hwrite
    simp [debt, finish, hpending]
  | nil =>
    cases hwrite
    simp [debt, finish, hpending]
  | port port =>
    cases hchannel : node.channel port with
    | error broken => simp [hchannel, bind, Except.bind] at hwrite
    | ok k =>
      have hload := fabric.load_send_le k value task
      simp only [hchannel, bind, Except.bind] at hwrite
      split at hwrite
      · -- a value that is delivered may wake one receiver
        rename_i hsend
        cases hwrite
        simp only [hsend, reduceCtorEq, if_false] at hload
        simp only [debt, finish, hpending]
        omega
      · rename_i hsend
        cases hwrite
        simp only [hsend, if_true] at hload
        simp only [debt]
        omega

theorem load_afterRead_le {node after : Node n} {value : Int64} {task : τ}
    {fabric rest : Fabric τ n} {progress : Progress} (hpending : node.pending = none)
    (hread : node.afterRead value task fabric = .ok (progress, after, rest)) :
    rest.load + after.debt ≤ fabric.load + 1 := by
  unfold afterRead at hread
  cases hcurrent : node.current with
  | error broken => simp [hcurrent, bind, Except.bind] at hread
  | ok instruction =>
    simp only [hcurrent, bind, Except.bind] at hread
    split at hread
    · cases hread
      simp [debt, finish, hpending]
    · cases hread
      simp [debt, finish, hpending]
    · cases hread
      simp [debt, finish, hpending]
    · exact load_write_le hpending hread
    · cases hread

theorem load_finishAbandoned {node after : Node n} {fabric rest : Fabric τ n}
    {progress : Progress} (hpending : node.pending = none)
    (hfinish : node.finishAbandoned fabric = .ok (progress, after, rest)) :
    rest.load + after.debt = fabric.load := by
  unfold finishAbandoned at hfinish
  split at hfinish
  · rename_i port _
    cases hchannel : node.channel port with
    | error broken => simp [hchannel, bind, Except.bind] at hfinish
    | ok k =>
      cases hreceive : fabric.finishReceive k with
      | error broken => simp [hchannel, hreceive, bind, Except.bind] at hfinish
      | ok received =>
        simp only [hchannel, hreceive, bind, Except.bind, pure, Except.pure] at hfinish
        cases hfinish
        simp [debt, hpending, Fabric.load_finishReceive hreceive]
  · rename_i port value _
    cases hchannel : node.channel port with
    | error broken => simp [hchannel, bind, Except.bind] at hfinish
    | ok k =>
      simp only [hchannel, bind, Except.bind, pure, Except.pure] at hfinish
      cases hfinish
      simp [debt, hpending, Fabric.load_finishSend]
  · cases hfinish
    simp [debt, hpending]

/-- Resuming a node never raises the load with its pending read counted in. -/
theorem load_resume_le {node after : Node n} {task : τ} {fabric rest : Fabric τ n}
    {progress : Progress} (hresume : node.resume task fabric = .ok (progress, after, rest)) :
    rest.load + after.debt ≤ fabric.load + node.debt := by
  unfold resume at hresume
  split at hresume
  · rename_i port hpending
    cases hchannel : node.channel port with
    | error broken => simp [hchannel, bind, Except.bind] at hresume
    | ok k =>
      cases hreceive : fabric.finishReceive k with
      | error broken => simp [hchannel, hreceive, bind, Except.bind] at hresume
      | ok received =>
        obtain ⟨value, between⟩ := received
        simp only [hchannel, hreceive, bind, Except.bind] at hresume
        -- the read is no longer owed, which leaves room for the task that the write may wake
        have hread := load_afterRead_le rfl hresume
        have hfinish := Fabric.load_finishReceive hreceive
        simp only [debt, hpending] at hread ⊢
        omega
  · rename_i port value hpending
    cases hchannel : node.channel port with
    | error broken => simp [hchannel, bind, Except.bind] at hresume
    | ok k =>
      simp only [hchannel, bind, Except.bind, pure, Except.pure] at hresume
      cases hresume
      simp [debt, finish, Fabric.load_finishSend]
  · rename_i hpending
    have hfinish := load_finishAbandoned hpending hresume
    omega

end Node

end NodeGrid

import NodeGrid.Node.Execution
import NodeGrid.Proofs.Yields
import Mathlib.Data.Nat.Notation

/-!
# What a step asks of the fabric

A step of a node runs by itself until it wants a value from a port or wants to
leave one there.  Here is a step with the fabric taken out of it: it begins with a
`Demand`, and after the value asked for has come in it goes on to a `Pause`, at
which it is over or offers a value.  What there is to ask for is listed once
(`demandExecute_eq_ok`, `pauseAfterRead_eq_ok`), and whatever holds of a step by itself
is read off that list.

On every fabric, a step is its demand served by that fabric (`step_eq_serve`).  A
step that is resumed with a value goes on to the pause that the value leads to
(`resume_eq_serve`), and one whose value is accepted late is over as if it had been
accepted at once (`resume_eq_finish`).  So what a node does depends on the values that its ports
supply and on nothing else that a fabric does.
-/

namespace NodeGrid

variable {τ : Type} {n : ℕ}

/-- The operand that an instruction reads before anything else. -/
def Instruction.source? : Instruction → Option Operand
  | .unary _ source | .move source _ => some source
  | .plain _ | .jump _ _ => none

/-- The port that the instruction reads. -/
def Instruction.readPort? (instruction : Instruction) : Option Port :=
  instruction.source?.bind Operand.port?

/-- The port that the instruction writes. -/
def Instruction.writtenPort? : Instruction → Option Port
  | .move _ target => target.port?
  | .plain _ | .unary _ _ | .jump _ _ => none

theorem Instruction.mem_ports_iff {instruction : Instruction} {port : Port} :
    port ∈ instruction.ports ↔
      instruction.readPort? = some port ∨ instruction.writtenPort? = some port := by
  cases instruction <;> simp [ports, readPort?, writtenPort?, source?]

/-- Where a step stops that has its source. -/
inductive Pause (n : ℕ) where
  /-- The step is over. -/
  | settled (node : Node n)
  /-- The node offers a value at a port. -/
  | writing (port : Port) (value : Int64) (node : Node n)

/-- Where a step stops that has just begun. -/
inductive Demand (n : ℕ) where
  | paused (pause : Pause n)
  /-- The node asks for a value from a port. -/
  | reading (port : Port) (node : Node n)

namespace Node

/-- The pause of `Node.write`. -/
def pauseWrite (node : Node n) (target : Register) (value : Int64) : Pause n :=
  match target with
  | .acc => .settled (finish { node with acc := value } none)
  | .nil => .settled (node.finish none)
  | .port port => .writing port value node

/-- The pause of `Node.afterRead`. -/
def pauseAfterRead (node : Node n) (value : Int64) : Except Fault (Pause n) := do
  match ← node.current with
  | .unary .add _ => return .settled (finish { node with acc := node.acc + value } none)
  | .unary .sub _ => return .settled (finish { node with acc := node.acc - value } none)
  | .unary .jro _ => return .settled (node.finish (some (relativeTarget node.ip value)))
  | .move _ target => return node.pauseWrite target value
  | instruction => .error (.noSource instruction)

/-- The demand of `Node.read`. -/
def demandRead (node : Node n) (source : Operand) : Except Fault (Demand n) :=
  match source with
  | .immediate value => return .paused (← node.pauseAfterRead value)
  | .register .acc => return .paused (← node.pauseAfterRead node.acc)
  | .register .nil => return .paused (← node.pauseAfterRead 0)
  | .register (.port port) => .ok (.reading port node)

/-- The demand of `Node.execute`. -/
def demandExecute (node : Node n) : Except Fault (Demand n) := do
  match ← node.current with
  | .plain operation => return .paused (.settled ((node.applyPlain operation).finish none))
  | .unary _ source => node.demandRead source
  | .move source _ => node.demandRead source
  | .jump condition target =>
    let taken := if condition.holds node.acc then some target else none
    return .paused (.settled (node.finish taken))

/-- The demand of `Node.step`. -/
def demand (node : Node n) : Except Fault (Demand n) :=
  let node := { node with requested := node.requested + 1 }
  if node.program.isEmpty then
    .ok (.paused (.settled node))
  else
    demandExecute { node with ip := node.nextIp }

end Node

/-- What a fabric makes of a pause. -/
def Pause.serve (task : τ) (fabric : Fabric τ n) :
    Pause n → Except Fault (Progress × Node n × Fabric τ n)
  | .settled node => .ok (.settled, node, fabric)
  | .writing port value node => do
    let k ← node.channel port
    match fabric.send k value task with
    | (.delivered, fabric) => .ok (.settled, node.finish none, fabric)
    | (.blocked, fabric) =>
      .ok (.pending, { node with status := .write, pending := some (.write port value) }, fabric)

/-- What a fabric makes of a demand. -/
def Demand.serve (task : τ) (fabric : Fabric τ n) :
    Demand n → Except Fault (Progress × Node n × Fabric τ n)
  | .paused pause => pause.serve task fabric
  | .reading port node => do
    let k ← node.channel port
    match ← fabric.receive k task with
    | (.received value, fabric) => (← node.pauseAfterRead value).serve task fabric
    | (.blocked, fabric) =>
      .ok (.pending, { node with status := .read, pending := some (.read port) }, fabric)

namespace Node

/-! ## What a step asks for -/

section Asked

variable {node : Node n}

/-- With its value, a step is over, or it offers the value at the port that the instruction
writes. -/
theorem pauseAfterRead_eq_ok {value : Int64} {pause : Pause n}
    (hpause : node.pauseAfterRead value = .ok pause) :
    (∃ acc target, pause = .settled (finish { node with acc } target)) ∨
      ∃ instruction port, node.current = .ok instruction ∧
        instruction.writtenPort? = some port ∧ pause = .writing port value node := by
  obtain ⟨instruction, hcurrent, hused⟩ := bind_eq_ok.mp hpause
  cases instruction with
  | plain operation => cases hused
  | jump condition target => cases hused
  | unary operation source =>
      cases operation <;> cases hused <;> exact .inl ⟨_, _, rfl⟩
  | move source target =>
      cases hused
      cases target with
      | acc => exact .inl ⟨value, none, rfl⟩
      | nil => exact .inl ⟨node.acc, none, rfl⟩
      | port port => exact .inr ⟨_, port, hcurrent, rfl, rfl⟩

/-- An operand is a value that the node has, or it is a port that the node asks. -/
theorem demandRead_eq_ok {source : Operand} {demand : Demand n}
    (hdemand : node.demandRead source = .ok demand) :
    (∃ value pause, node.pauseAfterRead value = .ok pause ∧ demand = .paused pause) ∨
      ∃ port, source.port? = some port ∧ demand = .reading port node := by
  -- immediate values and registers are at hand, so nothing is asked of the fabric
  have hpaused : ∀ value, (do return Demand.paused (← node.pauseAfterRead value)) = .ok demand →
      ∃ value pause, node.pauseAfterRead value = .ok pause ∧ demand = .paused pause := by
    intro value hpaused
    obtain ⟨pause, hpause, hreturn⟩ := bind_eq_ok.mp hpaused
    cases hreturn
    exact ⟨value, pause, hpause, rfl⟩
  cases source with
  | immediate value => exact .inl (hpaused value hdemand)
  | register register =>
      cases register with
      | acc => exact .inl (hpaused node.acc hdemand)
      | nil => exact .inl (hpaused 0 hdemand)
      | port port =>
          cases hdemand
          exact .inr ⟨port, rfl, rfl⟩

/-- An instruction is over at once, has its value at once, or asks the port that it reads. -/
theorem demandExecute_eq_ok {demand : Demand n} (hdemand : node.demandExecute = .ok demand) :
    (∃ acc bak target, demand = .paused (.settled (finish { node with acc, bak } target))) ∨
      (∃ value pause, node.pauseAfterRead value = .ok pause ∧ demand = .paused pause) ∨
      ∃ instruction port, node.current = .ok instruction ∧
        instruction.readPort? = some port ∧ demand = .reading port node := by
  obtain ⟨instruction, hcurrent, hstarted⟩ := bind_eq_ok.mp hdemand
  -- instructions with a source are as their source is
  have hread : ∀ source, instruction.source? = some source → node.demandRead source = .ok demand →
      (∃ value pause, node.pauseAfterRead value = .ok pause ∧ demand = .paused pause) ∨
        ∃ instruction port, node.current = .ok instruction ∧
          instruction.readPort? = some port ∧ demand = .reading port node := by
    intro source hsource hread
    obtain hpaused | ⟨port, hport, hreading⟩ := demandRead_eq_ok hread
    · exact .inl hpaused
    · exact .inr ⟨instruction, port, hcurrent, by simp [Instruction.readPort?, hsource, hport],
        hreading⟩
  cases instruction with
  | plain operation =>
      cases hstarted
      cases operation <;> exact .inl ⟨_, _, none, rfl⟩
  | jump condition target =>
      cases hstarted
      exact .inl ⟨node.acc, node.bak, _, rfl⟩
  | unary operation source => exact .inr (hread source rfl hstarted)
  | move source target => exact .inr (hread source rfl hstarted)

end Asked

/-! ## Every fabric serves the same demands -/

variable (node : Node n) (task : τ) (fabric : Fabric τ n)

theorem write_eq_serve (target : Register) (value : Int64) :
    node.write target value task fabric = (node.pauseWrite target value).serve task fabric := by
  cases target <;> rfl

theorem afterRead_eq_serve (value : Int64) :
    node.afterRead value task fabric =
      node.pauseAfterRead value >>= fun pause => pause.serve task fabric := by
  unfold afterRead pauseAfterRead
  cases node.current with
  | error broken => rfl
  | ok instruction =>
      simp only [ok_bind]
      cases instruction with
      | plain operation => rfl
      | jump condition target => rfl
      | unary operation source => cases operation <;> rfl
      | move source target => exact node.write_eq_serve task fabric target value

theorem read_eq_serve (source : Operand) :
    node.read source task fabric =
      node.demandRead source >>= fun demand => demand.serve task fabric := by
  have hpaused : ∀ value, node.afterRead value task fabric =
      (node.pauseAfterRead value >>= fun pause => pure (Demand.paused pause)) >>=
        fun demand => demand.serve task fabric := by
    intro value
    rw [afterRead_eq_serve]
    cases node.pauseAfterRead value <;> rfl
  cases source with
  | immediate value => exact hpaused value
  | register register =>
      cases register with
      | acc => exact hpaused node.acc
      | nil => exact hpaused 0
      | port port =>
          -- both ask the channel before anything else, and differ only in what they call the rest
          change node.channel port >>= _ = node.channel port >>= _
          refine bind_congr fun k => bind_congr fun outcome => ?_
          obtain ⟨status, rest⟩ := outcome
          cases status with
          | received value => exact node.afterRead_eq_serve task rest value
          | blocked => rfl

theorem execute_eq_serve :
    node.execute task fabric =
      node.demandExecute >>= fun demand => demand.serve task fabric := by
  unfold execute demandExecute
  cases node.current with
  | error broken => rfl
  | ok instruction =>
      simp only [ok_bind]
      cases instruction with
      | plain operation => rfl
      | unary operation source => exact node.read_eq_serve task fabric source
      | move source target => exact node.read_eq_serve task fabric source
      | jump condition target => rfl

/-- A step is its demand, served by the fabric. -/
theorem step_eq_serve :
    node.step task fabric = node.demand >>= fun demand => demand.serve task fabric := by
  unfold step demand
  by_cases hempty : node.program.isEmpty = true
  · have hcounted : Node.program { node with requested := node.requested + 1 } = node.program := rfl
    simp only [hcounted, if_pos hempty, ok_bind]
    rfl
  · have hcounted : Node.program { node with requested := node.requested + 1 } = node.program := rfl
    simp only [hcounted, if_neg hempty, execute_eq_serve]

/-- A read that had to wait goes on with its value as if it had come at once. -/
theorem resume_eq_serve {port : Port} (hpending : node.pending = some (.read port)) :
    node.resume task fabric = (do
      let (value, fabric) ← fabric.finishReceive (← node.channel port)
      (← { node with pending := none }.pauseAfterRead value).serve task fabric) := by
  simp only [resume, hpending, afterRead_eq_serve]

/-- A node that goes on with a read goes on from the pause that the value leads to. -/
theorem exists_pause_of_resume {port : Port} {progress : Progress} {after : Node n}
    {rest : Fabric τ n} (hpending : node.pending = some (.read port))
    (hresume : node.resume task fabric = .ok (progress, after, rest)) :
    ∃ value pause between, pauseAfterRead { node with pending := none } value = .ok pause ∧
      pause.serve task between = .ok (progress, after, rest) := by
  rw [resume_eq_serve _ _ _ hpending] at hresume
  obtain ⟨k, -, hresume⟩ := bind_eq_ok.mp hresume
  obtain ⟨⟨value, between⟩, -, hresume⟩ := bind_eq_ok.mp hresume
  obtain ⟨pause, hpause, hserve⟩ := bind_eq_ok.mp hresume
  exact ⟨value, pause, between, hpause, hserve⟩

/-- A write that had to wait ends as if it had been accepted at once. -/
theorem resume_eq_finish {port : Port} {value : Int64} (hidle : node.pending = none) :
    resume { node with status := .write, pending := some (.write port value) } task fabric = (do
      let k ← node.channel port
      return (.settled, node.finish none, fabric.finishSend k value)) := by
  have hfinish : finish { node with status := .write, pending := none } none =
      node.finish none := by
    rw [← hidle]
    rfl
  simp only [resume, hfinish]
  rfl

end Node

end NodeGrid

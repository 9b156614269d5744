import NodeGrid.Endpoint
import NodeGrid.Proofs.Fabric.Engagement
import NodeGrid.Proofs.Node.Demand

/-!
# Nodes that do not fault

A node relies on its ports being connected, on its instruction pointer lying
inside the program, and on a pending read belonging to an instruction that can
use its value.  `Node.Sound` says this of a node between its steps, `Executing`
of a node in the middle of one.  Both also say which channels the node may come to
use.

While an operation of a node is outstanding, pending or abandoned, the task of
the node is engaged in it (`Node.engagement`).  A step begins when there is none;
it and everything that goes on from it keep the node sound, and the fabric sound
for the new engagement of the task (`Sound.step`, `Sound.resume`,
`Sound.withdraw`).
-/

namespace NodeGrid

variable {n : ℕ}

/-- The port that the operation waits on. -/
def PortOperation.port : PortOperation → Port
  | .read port | .write port _ => port

/-- What the task of a node with the given ports is engaged in. -/
def PortOperation.engagement (ports : Port → Option (Fin n)) :
    PortOperation → Option (Engagement n)
  | .read port => (ports port).map .receiving
  | .write port value => (ports port).map fun k => .sending k value

theorem PortOperation.engagement_read {ports : Port → Option (Fin n)} {port : Port} {k : Fin n}
    (hport : ports port = some k) :
    (PortOperation.read port).engagement ports = some (.receiving k) := by
  simp [engagement, hport]

theorem PortOperation.engagement_write {ports : Port → Option (Fin n)} {port : Port} {k : Fin n}
    (hport : ports port = some k) (value : Int64) :
    (PortOperation.write port value).engagement ports = some (.sending k value) := by
  simp [engagement, hport]

theorem PortOperation.isSome_engagement (ports : Port → Option (Fin n))
    (operation : PortOperation) :
    (operation.engagement ports).isSome = (ports operation.port).isSome := by
  cases operation <;> simp [engagement, port]

/-! ## What an operation leaves behind -/

/-- An operation with `task` has come to a stop: the task is now engaged as
given, and its step is pending exactly if it is engaged. -/
structure Served {τ : Type} [Fintype τ] [DecidableEq τ] (users : Fin n → Finset τ)
    (engaged : τ → Option (Engagement n)) (task : τ) (progress : Progress)
    (engagement : Option (Engagement n)) (fabric : Fabric τ n) : Prop where
  fabric : fabric.Sound users (Function.update engaged task engagement)
  pending_iff : progress = .pending ↔ engagement.isSome = true

namespace Node

/-- What the task of the node is engaged in. -/
def engagement (node : Node n) : Option (Engagement n) :=
  (node.pending.or node.abandoned).bind (·.engagement node.ports)

/-- Every port that the program uses leads to one of the allowed channels. -/
def IsWired (node : Node n) (allowed : Fin n → Prop) : Prop :=
  ∀ instruction ∈ node.program, ∀ port ∈ instruction.ports,
    ∃ k, node.ports port = some k ∧ allowed k

/-- A node between its steps, which uses only allowed channels. -/
structure Sound (node : Node n) (allowed : Fin n → Prop) : Prop where
  wired : node.IsWired allowed
  nextIp_lt : node.program ≠ [] → node.nextIp < node.program.length
  /-- An outstanding operation is on a connected port. -/
  outstanding : ∀ operation, node.pending = some operation ∨ node.abandoned = some operation →
    ∃ k, node.ports operation.port = some k ∧ allowed k
  not_both : node.pending = none ∨ node.abandoned = none
  /-- The instruction that waits is one that reads. -/
  current : ∀ operation, node.pending = some operation →
    ∃ instruction, node.program[node.ip]? = some instruction ∧ instruction.source?.isSome
  status_read : node.status = .read ↔ ∃ port, node.pending = some (.read port)
  status_write : node.status = .write ↔ ∃ port value, node.pending = some (.write port value)

/-- A node that executes `instruction`. -/
structure Executing (node : Node n) (allowed : Fin n → Prop) (instruction : Instruction) :
    Prop where
  wired : node.IsWired allowed
  current : node.program[node.ip]? = some instruction
  nextIp_lt : node.nextIp < node.program.length
  pending_eq : node.pending = none
  abandoned_eq : node.abandoned = none

theorem channel_eq_ok {node : Node n} {port : Port} {k : Fin n} (hport : node.ports port = some k) :
    node.channel port = .ok k := by
  simp [channel, hport]

theorem current_eq_ok {node : Node n} {instruction : Instruction}
    (hcurrent : node.program[node.ip]? = some instruction) : node.current = .ok instruction := by
  simp [current, hcurrent]

/-! ## Executing an instruction -/

@[simp] theorem program_finish (node : Node n) (target : Option ℕ) :
    (node.finish target).program = node.program := rfl

@[simp] theorem pending_finish (node : Node n) (target : Option ℕ) :
    (node.finish target).pending = node.pending := rfl

@[simp] theorem abandoned_finish (node : Node n) (target : Option ℕ) :
    (node.finish target).abandoned = node.abandoned := rfl

@[simp] theorem status_finish (node : Node n) (target : Option ℕ) :
    (node.finish target).status = .run := rfl

theorem nextIp_finish {node : Node n} (hprogram : node.program ≠ []) (target : Option ℕ) :
    (node.finish target).nextIp = target.getD (node.ip + 1) % node.program.length := by
  simp [finish, hprogram]

variable {node : Node n} {allowed : Fin n → Prop} {instruction : Instruction}

theorem Executing.channel (hexecuting : node.Executing allowed instruction) {port : Port}
    (hport : port ∈ instruction.ports) : ∃ k, node.ports port = some k ∧ allowed k :=
  hexecuting.wired instruction (List.mem_of_getElem? hexecuting.current) port hport

theorem Executing.withRegisters (hexecuting : node.Executing allowed instruction) (acc bak : Int64) :
    Executing { node with acc, bak } allowed instruction :=
  ⟨hexecuting.wired, hexecuting.current, hexecuting.nextIp_lt, hexecuting.pending_eq,
    hexecuting.abandoned_eq⟩

theorem Executing.finish (hexecuting : node.Executing allowed instruction) (target : Option ℕ) :
    (node.finish target).Sound allowed ∧ (node.finish target).engagement = none := by
  have hpending := hexecuting.pending_eq
  have habandoned := hexecuting.abandoned_eq
  refine ⟨?_, by simp [engagement, hpending, habandoned]⟩
  constructor
  case wired => exact hexecuting.wired
  case nextIp_lt =>
    intro hprogram
    rw [program_finish] at hprogram
    rw [nextIp_finish hprogram, program_finish]
    exact Nat.mod_lt _ (List.length_pos_of_ne_nil hprogram)
  case outstanding => simp [hpending, habandoned]
  case not_both => exact Or.inl hpending
  case current => simp [hpending]
  case status_read => simp [hpending]
  case status_write => simp [hpending]

section Steps

variable {τ : Type} [Fintype τ] [DecidableEq τ] {fabric : Fabric τ n}
  {users : Fin n → Finset τ} {engaged : τ → Option (Engagement n)} {task : τ}

/-- The node is sound again, and its task is served. -/
def Stops (users : Fin n → Finset τ) (engaged : τ → Option (Engagement n)) (task : τ) :
    Progress × Node n × Fabric τ n → Prop :=
  fun (progress, node, fabric) =>
    node.Sound (task ∈ users ·) ∧ Served users engaged task progress node.engagement fabric

theorem Executing.stops_finish (hexecuting : node.Executing (task ∈ users ·) instruction)
    (hfabric : fabric.Sound users (Function.update engaged task none)) (target : Option ℕ) :
    Stops users engaged task (.settled, node.finish target, fabric) := by
  obtain ⟨hsound, hengagement⟩ := hexecuting.finish target
  refine ⟨hsound, ?_, ?_⟩
  · rwa [hengagement]
  · simp [hengagement]

/-- A step stops when its instruction has to wait with `operation`. -/
theorem Executing.stops_waiting (hexecuting : node.Executing (task ∈ users ·) instruction)
    (operation : PortOperation) {status : Status} {k : Fin n}
    (hport : node.ports operation.port = some k) (huser : task ∈ users k)
    (hsource : instruction.source?.isSome)
    (hstatus : status = match operation with | .read _ => .read | .write _ _ => .write)
    (hfabric : fabric.Sound users (Function.update engaged task (operation.engagement node.ports))) :
    Stops users engaged task
      (.pending, { node with status, pending := some operation }, fabric) := by
  have habandoned := hexecuting.abandoned_eq
  have hsome : (operation.engagement node.ports).isSome = true := by
    rw [operation.isSome_engagement, hport]
    rfl
  refine ⟨?_, hfabric, ?_⟩
  · constructor
    case wired => exact hexecuting.wired
    case nextIp_lt => exact fun _ => hexecuting.nextIp_lt
    case outstanding => simp [habandoned, hport, huser]
    -- the node has nothing else outstanding: it could not have begun the instruction otherwise
    case not_both => exact Or.inr habandoned
    case current => exact fun _ _ => ⟨instruction, hexecuting.current, hsource⟩
    case status_read => cases operation <;> simp [hstatus]
    case status_write => cases operation <;> simp [hstatus]
  · simpa [engagement] using hsome

theorem Executing.write (hexecuting : node.Executing (task ∈ users ·) instruction)
    (hsource : instruction.source?.isSome) {target : Register}
    (htarget : ∀ port, target.port? = some port → port ∈ instruction.ports)
    (hfabric : fabric.Sound users (Function.update engaged task none)) (value : Int64) :
    Yields (node.write target value task fabric) (Stops users engaged task) := by
  cases target with
  | acc => exact yields_ok.mpr ((hexecuting.withRegisters value node.bak).stops_finish hfabric none)
  | nil => exact yields_ok.mpr (hexecuting.stops_finish hfabric none)
  | port port =>
      -- only a port can make the instruction wait
      obtain ⟨k, hport, huser⟩ := hexecuting.channel (htarget port rfl)
      have hsent := hfabric.send k value huser (Function.update_self ..)
      rw [Function.update_idem] at hsent
      obtain ⟨⟨status, rest⟩, hsend⟩ : ∃ outcome, fabric.send k value task = outcome := ⟨_, rfl⟩
      rw [hsend] at hsent
      simp only [Node.write, channel_eq_ok hport, ok_bind, hsend]
      cases status with
      | delivered => exact yields_ok.mpr (hexecuting.stops_finish hsent none)
      | blocked =>
          refine yields_ok.mpr
            (hexecuting.stops_waiting (.write port value) hport huser hsource rfl ?_)
          rwa [PortOperation.engagement_write hport]

/-- An instruction whose source has been read goes on to its end or to a write. -/
theorem Executing.afterRead (hexecuting : node.Executing (task ∈ users ·) instruction)
    (hsource : instruction.source?.isSome)
    (hfabric : fabric.Sound users (Function.update engaged task none)) (value : Int64) :
    Yields (node.afterRead value task fabric) (Stops users engaged task) := by
  simp only [Node.afterRead, current_eq_ok hexecuting.current, ok_bind]
  -- without a source the instruction would not be here
  cases instruction with
  | plain operation => cases hsource
  | jump condition target => cases hsource
  | unary operation source =>
      cases operation with
      | add =>
          exact yields_ok.mpr
            ((hexecuting.withRegisters (node.acc + value) node.bak).stops_finish hfabric none)
      | sub =>
          exact yields_ok.mpr
            ((hexecuting.withRegisters (node.acc - value) node.bak).stops_finish hfabric none)
      | jro => exact yields_ok.mpr (hexecuting.stops_finish hfabric _)
  | move source target =>
      refine hexecuting.write hsource (fun port hport => ?_) hfabric value
      simp [Instruction.ports, hport]

theorem Executing.read (hexecuting : node.Executing (task ∈ users ·) instruction) {source : Operand}
    (hsource : instruction.source? = some source)
    (hfabric : fabric.Sound users (Function.update engaged task none)) :
    Yields (node.read source task fabric) (Stops users engaged task) := by
  have hreads : instruction.source?.isSome := by rw [hsource]; rfl
  cases source with
  | immediate value => exact hexecuting.afterRead hreads hfabric value
  | register register =>
      cases register with
      | acc => exact hexecuting.afterRead hreads hfabric node.acc
      | nil => exact hexecuting.afterRead hreads hfabric 0
      | port port =>
          -- the port stands in the program, so the task is a user of its channel
          have hmem : port ∈ instruction.ports := by
            cases instruction <;> cases hsource <;> simp [Instruction.ports, Operand.port?,
              Register.port?]
          obtain ⟨k, hport, huser⟩ := hexecuting.channel hmem
          simp only [Node.read, channel_eq_ok hport, ok_bind]
          refine (hfabric.receive k huser (Function.update_self ..)).bind ?_
          rintro ⟨status, rest⟩ hrest
          simp only [Function.update_idem] at hrest
          cases status with
          | received value => exact hexecuting.afterRead hreads hrest value
          | blocked =>
              refine yields_ok.mpr
                (hexecuting.stops_waiting (.read port) hport huser hreads rfl ?_)
              rwa [PortOperation.engagement_read hport]

theorem Executing.execute (hexecuting : node.Executing (task ∈ users ·) instruction)
    (hfabric : fabric.Sound users (Function.update engaged task none)) :
    Yields (node.execute task fabric) (Stops users engaged task) := by
  simp only [Node.execute, current_eq_ok hexecuting.current, ok_bind]
  cases instruction with
  | plain operation =>
      have happlied : (node.applyPlain operation).Executing (task ∈ users ·) (.plain operation) := by
        cases operation with
        | nop => exact hexecuting
        | neg => exact hexecuting.withRegisters (-node.acc) node.bak
        | sav => exact hexecuting.withRegisters node.acc node.acc
        | swp => exact hexecuting.withRegisters node.bak node.acc
      exact yields_ok.mpr (happlied.stops_finish hfabric none)
  | unary operation source => exact hexecuting.read rfl hfabric
  | move source target => exact hexecuting.read rfl hfabric
  | jump condition target => exact yields_ok.mpr (hexecuting.stops_finish hfabric _)

/-! ## Between steps -/

/-- An outstanding operation on a connected port engages its task. -/
theorem isSome_engagement_of_outstanding
    (hconnected : ∀ operation, node.pending = some operation ∨ node.abandoned = some operation →
      ∃ k, node.ports operation.port = some k ∧ allowed k)
    {operation : PortOperation}
    (houtstanding : node.pending = some operation ∨ node.abandoned = some operation) :
    (operation.engagement node.ports).isSome := by
  obtain ⟨k, hport, -⟩ := hconnected operation houtstanding
  rw [operation.isSome_engagement, hport]
  rfl

/-- The task of a sound node is engaged exactly if an operation is outstanding. -/
theorem Sound.engagement_eq_none_iff (hsound : node.Sound allowed) :
    node.engagement = none ↔ node.pending = none ∧ node.abandoned = none := by
  have hconnected := hsound.outstanding
  unfold engagement
  cases hpending : node.pending with
  | some operation =>
      have hsome := isSome_engagement_of_outstanding hconnected (Or.inl hpending)
      simpa [Option.isSome_iff_ne_none] using hsome
  | none =>
      cases habandoned : node.abandoned with
      | some operation =>
          have hsome := isSome_engagement_of_outstanding hconnected (Or.inr habandoned)
          simpa [Option.isSome_iff_ne_none] using hsome
      | none => simp

theorem Sound.stall (hsound : node.Sound allowed) : node.stall.Sound allowed :=
  ⟨hsound.wired, hsound.nextIp_lt, hsound.outstanding, hsound.not_both, hsound.current,
    hsound.status_read, hsound.status_write⟩

theorem Sound.step (hsound : node.Sound (task ∈ users ·)) (hrest : node.engagement = none)
    (hfabric : fabric.Sound users (Function.update engaged task none)) :
    Yields (node.step task fabric) (Stops users engaged task) := by
  obtain ⟨hpending, habandoned⟩ := hsound.engagement_eq_none_iff.mp hrest
  unfold Node.step
  by_cases hprogram : node.program = []
  · have hempty : node.stall.program.isEmpty = true := by
      rw [List.isEmpty_iff]
      exact hprogram
    have hengagement : node.stall.engagement = none := hrest
    rw [show { node with requested := node.requested + 1 } = node.stall from rfl, if_pos hempty]
    refine yields_ok.mpr ⟨hsound.stall, ?_, by simp [hengagement]⟩
    rwa [hengagement]
  · have hnonempty : ¬ node.stall.program.isEmpty = true := by
      rw [List.isEmpty_iff]
      exact hprogram
    rw [show { node with requested := node.requested + 1 } = node.stall from rfl, if_neg hnonempty]
    -- the next index is inside the program, so there is an instruction to execute
    have hnext := hsound.nextIp_lt hprogram
    have hexecuting : Executing { node.stall with ip := node.nextIp } (task ∈ users ·)
        node.program[node.nextIp] :=
      ⟨hsound.wired, List.getElem?_eq_getElem hnext, hnext, hpending, habandoned⟩
    exact hexecuting.execute hfabric

/-- An abandoned operation that has come to its end is forgotten. -/
theorem Sound.forget (hsound : node.Sound allowed) (hpending : node.pending = none) :
    Sound { node with abandoned := none } allowed ∧
      engagement { node with abandoned := none } = none := by
  refine ⟨⟨hsound.wired, hsound.nextIp_lt, ?_, Or.inr rfl, hsound.current, hsound.status_read,
    hsound.status_write⟩, ?_⟩
  · simp [hpending]
  · simp [engagement, hpending]

/-- A pending operation whose task has been woken is over; its instruction goes
on. -/
theorem Sound.executing (hsound : node.Sound allowed) {operation : PortOperation}
    (hpending : node.pending = some operation) :
    ∃ instruction, Executing { node with pending := none } allowed instruction ∧
      instruction.source?.isSome := by
  obtain ⟨instruction, hcurrent, hsource⟩ := hsound.current operation hpending
  refine ⟨instruction, ⟨hsound.wired, hcurrent, ?_, rfl, ?_⟩, hsource⟩
  · refine hsound.nextIp_lt fun hprogram => ?_
    rw [hprogram] at hcurrent
    cases hcurrent
  · have hboth := hsound.not_both
    rw [hpending] at hboth
    simpa using hboth

theorem Sound.finishAbandoned {ready : List τ} (hsound : node.Sound (task ∈ users ·))
    (hpending : node.pending = none) (hfabric : fabric.Sound users engaged)
    (hready : fabric.ready = task :: ready) (hengaged : engaged task = node.engagement) :
    Yields (node.finishAbandoned (fabric.withReady ready)) (Stops users engaged task) := by
  obtain ⟨hforgotten, hengagement⟩ := hsound.forget hpending
  have hstops : ∀ rest : Fabric τ n, rest.Sound users (Function.update engaged task none) →
      Stops users engaged task (.settled, { node with abandoned := none }, rest) := by
    intro rest hrest
    refine ⟨hforgotten, ?_, by simp [hengagement]⟩
    rwa [hengagement]
  have hoperation : node.engagement = node.abandoned.bind (·.engagement node.ports) := by
    rw [engagement, hpending, Option.none_or]
  rw [hoperation] at hengaged
  unfold Node.finishAbandoned
  cases habandoned : node.abandoned with
  | none =>
      -- the task would be ready without being engaged in anything
      have hmem := hfabric.engaged_of_ready task (by simp [hready])
      rw [hengaged, habandoned] at hmem
      cases hmem
  | some operation =>
      obtain ⟨k, hport, -⟩ := hsound.outstanding operation (Or.inr habandoned)
      rw [habandoned, Option.bind_some] at hengaged
      cases operation with
      | read port =>
          change node.ports port = some k at hport
          rw [PortOperation.engagement_read hport] at hengaged
          simp only [channel_eq_ok hport, ok_bind]
          refine (hfabric.finishReceive hready hengaged).bind ?_
          rintro ⟨value, rest⟩ hrest
          exact yields_ok.mpr (hstops rest hrest)
      | write port value =>
          change node.ports port = some k at hport
          rw [PortOperation.engagement_write hport] at hengaged
          simp only [channel_eq_ok hport, ok_bind]
          exact yields_ok.mpr (hstops _ (hfabric.finishSend hready hengaged))

theorem Sound.resume {ready : List τ} (hsound : node.Sound (task ∈ users ·)) (hfabric : fabric.Sound users engaged)
    (hready : fabric.ready = task :: ready) (hengaged : engaged task = node.engagement) :
    Yields (node.resume task (fabric.withReady ready)) (Stops users engaged task) := by
  unfold Node.resume
  cases hpending : node.pending with
  | none => exact hsound.finishAbandoned hpending hfabric hready hengaged
  -- the operation is over, and the instruction that waited with it goes on
  | some operation =>
      obtain ⟨instruction, hexecuting, hsource⟩ := hsound.executing hpending
      obtain ⟨k, hport, -⟩ := hsound.outstanding operation (Or.inl hpending)
      rw [engagement, hpending, Option.some_or, Option.bind_some] at hengaged
      cases operation with
      | read port =>
          change node.ports port = some k at hport
          rw [PortOperation.engagement_read hport] at hengaged
          simp only [channel_eq_ok hport, ok_bind]
          refine (hfabric.finishReceive hready hengaged).bind ?_
          rintro ⟨value, rest⟩ hrest
          exact hexecuting.afterRead hsource hrest value
      | write port value =>
          change node.ports port = some k at hport
          rw [PortOperation.engagement_write hport] at hengaged
          simp only [channel_eq_ok hport, ok_bind]
          exact yields_ok.mpr
            (hexecuting.stops_finish (hfabric.finishSend hready hengaged) none)

theorem Sound.withdraw (hsound : node.Sound (task ∈ users ·)) (hfabric : fabric.Sound users engaged) :
    Yields (node.withdraw task fabric) fun withdrawn => ∀ after rest,
      withdrawn = some (after, rest) → after.Sound (task ∈ users ·) ∧ after.engagement = none ∧
        rest.Sound users (Function.update engaged task none) := by
  unfold Node.withdraw
  cases habandoned : node.abandoned with
  | none => exact yields_ok.mpr fun _ _ hnone => by cases hnone
  | some operation =>
      have hpending : node.pending = none :=
        hsound.not_both.resolve_right (by simp [habandoned])
      -- a withdrawal that succeeds leaves the node without any engagement
      obtain ⟨hforgotten, hengagement⟩ := hsound.forget hpending
      obtain ⟨k, hport, -⟩ := hsound.outstanding operation (Or.inr habandoned)
      cases operation with
      | read port =>
          change node.ports port = some k at hport
          simp only [channel_eq_ok hport, ok_bind]
          refine yields_ok.mpr fun after rest hsome => ?_
          obtain ⟨next, hcancel, hpair⟩ := Option.map_eq_some_iff.mp hsome
          cases hpair
          exact ⟨hforgotten, hengagement, hfabric.cancelReceive hcancel⟩
      | write port value =>
          change node.ports port = some k at hport
          simp only [channel_eq_ok hport, ok_bind]
          refine yields_ok.mpr fun after rest hsome => ?_
          obtain ⟨next, hcancel, hpair⟩ := Option.map_eq_some_iff.mp hsome
          cases hpair
          exact ⟨hforgotten, hengagement, hfabric.cancelSend hcancel⟩

end Steps

/-! ## New programs -/

/-- A compilation says for each instruction which line it came from. -/
theorem length_lineMap {source : String} {compilation : Assembly.Compilation}
    (hcompile : Assembly.compile source = .ok compilation) :
    compilation.lineMap.length = compilation.program.length := by
  obtain ⟨statements, -, hlink⟩ := bind_eq_ok.mp hcompile
  obtain ⟨table, -, hplace⟩ := bind_eq_ok.mp hlink
  obtain ⟨placed, -, hresult⟩ := bind_eq_ok.mp hplace
  cases hresult
  simp

/-- What is assembled for a node is wired on it. -/
theorem wired_of_assemble {source : String} {compilation : Assembly.Compilation}
    (hassemble : node.assemble source = .ok compilation) :
    ∀ instruction ∈ compilation.program, ∀ port ∈ instruction.ports,
      (node.ports port).isSome := by
  obtain ⟨compiled, hcompile, hchecked⟩ := bind_eq_ok.mp hassemble
  cases hmissing : node.missingPort? compiled with
  | some error => simp [hmissing] at hchecked
  | none =>
      simp only [hmissing] at hchecked
      cases hchecked
      intro instruction hinstruction port hport
      -- the check runs over pairs of an instruction and its line
      rw [← List.map_fst_zip (length_lineMap hcompile).ge] at hinstruction
      obtain ⟨⟨_, line⟩, hplaced, rfl⟩ := List.mem_map.mp hinstruction
      have hnone := List.findSome?_eq_none_iff.mp hmissing _ hplaced
      simp only [Option.map_eq_none_iff, List.find?_eq_none] at hnone
      simpa [isConnected, Option.isSome_iff_ne_none] using hnone port hport

/-- A text is assembled if it is compiled to instructions whose ports are all connected. -/
theorem assemble_eq_ok_iff {source : String} {compilation : Assembly.Compilation} :
    node.assemble source = .ok compilation ↔
    Assembly.compile source = .ok compilation ∧
      ∀ instruction ∈ compilation.program, ∀ port ∈ instruction.ports,
        (node.ports port).isSome := by
  constructor
  · intro hassemble
    refine ⟨?_, wired_of_assemble hassemble⟩
    obtain ⟨compiled, hcompile, hchecked⟩ := bind_eq_ok.mp hassemble
    split at hchecked
    · cases hchecked
    · cases hchecked
      exact hcompile
  · rintro ⟨hcompile, hconnected⟩
    -- the search for a port that is not connected finds none
    have hmissing : node.missingPort? compilation = none := by
      refine List.findSome?_eq_none_iff.mpr fun placed hplaced => ?_
      obtain ⟨hinstruction, -⟩ := List.of_mem_zip hplaced
      rw [Option.map_eq_none_iff, List.find?_eq_none]
      intro port hport
      simpa [isConnected, Option.isSome_iff_ne_none] using
        hconnected placed.1 hinstruction port hport
    rw [assemble, hcompile, ok_bind, hmissing]

theorem program_load {source : String} {compilation : Assembly.Compilation}
    (hassemble : node.assemble source = .ok compilation) :
    (node.load source).program = compilation.program := by
  simp [program, Node.load, hassemble, Except.toOption]

theorem program_load_of_error {source : String} {broken : Assembly.CompileError}
    (hassemble : node.assemble source = .error broken) : (node.load source).program = [] := by
  simp [program, Node.load, hassemble, Except.toOption]

/-- What is compiled becomes the program if all its ports are connected; else there is
none. -/
theorem program_load_of_compile (node : Node n) {source : String}
    {compilation : Assembly.Compilation} (hcompile : Assembly.compile source = .ok compilation) :
    (node.load source).program =
      if ∀ instruction ∈ compilation.program, ∀ port ∈ instruction.ports,
        (node.ports port).isSome then compilation.program else [] := by
  split
  · rename_i hwired
    exact program_load (assemble_eq_ok_iff.mpr ⟨hcompile, hwired⟩)
  · rename_i hunwired
    cases hassemble : node.assemble source with
    | error broken => exact program_load_of_error hassemble
    | ok assembled =>
        obtain ⟨hcompiled, hwired⟩ := assemble_eq_ok_iff.mp hassemble
        rw [hcompile] at hcompiled
        cases hcompiled
        exact absurd hwired hunwired

/-- Every port that a new program uses is connected. -/
theorem isSome_ports_load {source : String} (hinstruction : instruction ∈ (node.load source).program)
    {port : Port} (hport : port ∈ instruction.ports) : (node.ports port).isSome := by
  cases hassemble : node.assemble source with
  | error broken =>
      rw [program_load_of_error hassemble] at hinstruction
      cases hinstruction
  | ok compilation =>
      rw [program_load hassemble] at hinstruction
      exact wired_of_assemble hassemble instruction hinstruction port hport

/-- A new program leaves the task engaged in what the old one was waiting for. -/
theorem Sound.load (hsound : node.Sound allowed) {source : String}
    (hallowed : ∀ instruction ∈ (node.load source).program, ∀ port ∈ instruction.ports,
      ∀ k, node.ports port = some k → allowed k) :
    (node.load source).Sound allowed ∧ (node.load source).engagement = node.engagement := by
  refine ⟨?_, rfl⟩
  constructor
  case wired =>
    intro instruction hinstruction port hport
    obtain ⟨k, hk⟩ := Option.isSome_iff_exists.mp (isSome_ports_load hinstruction hport)
    exact ⟨k, hk, hallowed instruction hinstruction port hport k hk⟩
  case nextIp_lt => exact fun hprogram => List.length_pos_of_ne_nil hprogram
  case outstanding =>
    -- what is abandoned now was pending or abandoned before
    intro operation houtstanding
    have hor : node.pending.or node.abandoned = some operation := by
      simpa [Node.load, reset] using houtstanding
    rw [Option.or_eq_some_iff] at hor
    exact hsound.outstanding operation (hor.imp_right And.right)
  case not_both => exact Or.inl rfl
  case current => simp [Node.load, reset]
  case status_read => simp [Node.load, reset]
  case status_write => simp [Node.load, reset]

theorem sound_inert (name : String) (ports : Port → Option (Fin n)) :
    (inert name ports).Sound allowed ∧ (inert name ports).engagement = none := by
  refine ⟨?_, rfl⟩
  constructor <;> simp [inert, IsWired, program]

end Node

end NodeGrid

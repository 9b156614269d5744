import NodeGrid.Proofs.Node.History

/-!
# The machine of a program

What a program does to the registers of a node, written as a function of one
instruction and of the data it works on.  An instruction has an `Effect`: the port
events it performs, the data it leaves, and where it jumps to, if it jumps.  The
machine of a program goes from effect to effect.

`history_eq_trace`: the history of a node with all ports connected is the trace of
the machine of its program.
-/

namespace NodeGrid

/-- What an instruction works on. -/
structure Data where
  acc : Int64
  bak : Int64
  supply : Supply

/-- What an instruction does. -/
structure Effect where
  events : List PortEvent
  data : Data
  /-- Where it jumps to. -/
  target : Option ℕ

/-- The value of an operand, the events of reading it, and the data afterwards. -/
def Operand.fetch (data : Data) : Operand → Int64 × List PortEvent × Data
  | .immediate value => (value, [], data)
  | .register .acc => (data.acc, [], data)
  | .register .nil => (0, [], data)
  | .register (.port port) =>
    (data.supply port 0, [.read port (data.supply port 0)],
      { data with supply := data.supply.advance port })

/-- The events of writing to a register, and the data afterwards. -/
def Register.store (data : Data) (value : Int64) : Register → List PortEvent × Data
  | .acc => ([], { data with acc := value })
  | .nil => ([], data)
  | .port direction => ([.write direction value], data)

/-- What an operation without an operand makes of the registers. -/
def Plain.effect (data : Data) : Plain → Data
  | .nop => data
  | .neg => { data with acc := -data.acc }
  | .sav => { data with bak := data.acc }
  | .swp => { data with acc := data.bak, bak := data.acc }

/-- What the instruction at `ip` does with the value of its source. -/
def Instruction.use (ip : ℕ) (value : Int64) (data : Data) : Instruction → Effect
  | .unary .add _ => ⟨[], { data with acc := data.acc + value }, none⟩
  | .unary .sub _ => ⟨[], { data with acc := data.acc - value }, none⟩
  | .unary .jro _ => ⟨[], data, some (relativeTarget ip value)⟩
  | .move _ target => ⟨(target.store data value).1, (target.store data value).2, none⟩
  | .plain _ | .jump _ _ => ⟨[], data, none⟩

/-- The effect of an instruction that reads `source` first. -/
def Operand.effect (source : Operand) (ip : ℕ) (data : Data) (instruction : Instruction) :
    Effect :=
  let (value, events, data) := source.fetch data
  let effect := instruction.use ip value data
  { effect with events := events ++ effect.events }

/-- What the instruction at `ip` does. -/
def Instruction.effect (ip : ℕ) (data : Data) : Instruction → Effect
  | .plain operation => ⟨[], operation.effect data, none⟩
  | .unary operation source => source.effect ip data (.unary operation source)
  | .move source target => source.effect ip data (.move source target)
  | .jump condition target => ⟨[], data, if condition.holds data.acc then some target else none⟩

/-- The state of a machine. -/
structure Machine where
  data : Data
  /-- The instruction to execute next. -/
  ip : ℕ
  /-- The number of instructions completed. -/
  executed : ℕ

namespace Machine

/-- A machine that has not started. -/
def start (data : Data) : Machine := ⟨data, 0, 0⟩

/-- A port event in the current state of the machine. -/
def moment (machine : Machine) (event : PortEvent) : Moment where
  event
  acc := machine.data.acc
  bak := machine.data.bak
  executed := machine.executed

/-- The state after an effect of a program of the given length. -/
def apply (machine : Machine) (length : ℕ) (effect : Effect) : Machine where
  data := effect.data
  ip := effect.target.getD (machine.ip + 1) % length
  executed := machine.executed + 1

/-- Executes one instruction.  A machine without instructions does nothing. -/
def step (code : Program) (machine : Machine) : List Moment × Machine :=
  match code[machine.ip]? with
  | none => ([], machine)
  | some instruction =>
    let effect := instruction.effect machine.ip machine.data
    (effect.events.map machine.moment, machine.apply code.length effect)

/-- The port events of the given number of instructions. -/
def trace (code : Program) (machine : Machine) : ℕ → List Moment
  | 0 => []
  | steps + 1 => (machine.step code).1 ++ (machine.step code).2.trace code steps

end Machine

/-! ## The machine of a node -/

namespace Node

variable {n : ℕ}

/-- The state of a node as that of a machine. -/
def machine (node : Node n) (supply : Supply) : Machine where
  data := ⟨node.acc, node.bak, supply⟩
  ip := node.nextIp
  executed := node.executed

/-- All ports are connected, and the node is between two instructions of its
program. -/
structure IsRunning (node : Node n) : Prop where
  connected : ∀ port, ∃ k, node.ports port = some k
  nextIp_lt : node.program ≠ [] → node.nextIp < node.program.length

/-- The node goes through `moments` to `after`, as the effect of its instruction
says. -/
structure Completes (node : Node n) (supply : Supply) (effect : Effect) (moments : List Moment)
    (after : Node n) : Prop where
  moments_eq : moments = effect.events.map node.moment
  program_eq : after.program = node.program
  ports_eq : after.ports = node.ports
  machine_eq : after.machine supply =
    ⟨effect.data, effect.target.getD (node.ip + 1) % node.program.length, node.executed + 1⟩

variable {node : Node n} {instruction : Instruction} {supply : Supply}

theorem completes_finish (supply : Supply) (hprogram : node.program ≠ []) (acc bak : Int64) (target : Option ℕ) :
    node.Completes supply ⟨[], ⟨acc, bak, supply⟩, target⟩ []
      (finish { node with acc, bak } target) where
  moments_eq := rfl
  program_eq := rfl
  ports_eq := rfl
  machine_eq := by
    have hisEmpty : Node.program { node with acc, bak } = node.program := rfl
    simp [machine, finish, hisEmpty, hprogram]

theorem answer_pauseWrite (hprogram : node.program ≠ [])
    (hconnected : ∀ port, ∃ k, node.ports port = some k) (target : Register) (value : Int64) :
    Yields (node.pauseWrite target value).answer fun (moments, after) =>
      node.Completes supply
        ⟨(target.store ⟨node.acc, node.bak, supply⟩ value).1,
          (target.store ⟨node.acc, node.bak, supply⟩ value).2, none⟩ moments after := by
  cases target with
  | acc => exact yields_ok.mpr (completes_finish supply hprogram value node.bak none)
  | nil => exact yields_ok.mpr (completes_finish supply hprogram node.acc node.bak none)
  | port port =>
      obtain ⟨k, hport⟩ := hconnected port
      have hfinished := completes_finish supply hprogram node.acc node.bak none
      simp only [pauseWrite, Pause.answer, channel, hport, ok_bind]
      exact yields_ok.mpr
        ⟨rfl, hfinished.program_eq, hfinished.ports_eq, hfinished.machine_eq⟩

theorem answer_pauseAfterRead (supply : Supply)
    (hcurrent : node.program[node.ip]? = some instruction)
    (hsource : instruction.source?.isSome)
    (hconnected : ∀ port, ∃ k, node.ports port = some k) (value : Int64) :
    Yields (node.pauseAfterRead value >>= Pause.answer) fun (moments, after) =>
      node.Completes supply (instruction.use node.ip value ⟨node.acc, node.bak, supply⟩)
        moments after := by
  have hprogram : node.program ≠ [] := by
    intro hnil
    rw [hnil] at hcurrent
    cases hcurrent
  simp only [pauseAfterRead, current, hcurrent, ok_bind]
  -- only instructions with a source have got a value
  cases instruction with
  | plain operation => cases hsource
  | jump condition target => cases hsource
  | unary operation source =>
      cases operation with
      | add => exact yields_ok.mpr (completes_finish supply hprogram (node.acc + value) node.bak none)
      | sub => exact yields_ok.mpr (completes_finish supply hprogram (node.acc - value) node.bak none)
      | jro => exact yields_ok.mpr (completes_finish supply hprogram node.acc node.bak _)
  | move source target => exact answer_pauseWrite hprogram hconnected target value

theorem answer_demandRead {source : Operand}
    (hcurrent : node.program[node.ip]? = some instruction)
    (hsource : instruction.source? = some source)
    (hconnected : ∀ port, ∃ k, node.ports port = some k) :
    Yields (node.demandRead source >>= Demand.answer supply) fun (moments, after, rest) =>
      node.Completes rest (source.effect node.ip ⟨node.acc, node.bak, supply⟩ instruction)
        moments after := by
  have hreads : instruction.source?.isSome := by rw [hsource]; rfl
  have hpaused : ∀ value, Yields
      ((node.pauseAfterRead value >>= fun pause => pure (Demand.paused pause)) >>=
        Demand.answer supply) fun (moments, after, rest) =>
      node.Completes rest (instruction.use node.ip value ⟨node.acc, node.bak, supply⟩)
        moments after := by
    intro value
    obtain ⟨⟨moments, after⟩, hok, hcompletes⟩ :=
      answer_pauseAfterRead supply hcurrent hreads hconnected value
    obtain ⟨pause, hpause, hanswer⟩ := bind_eq_ok.mp hok
    refine ⟨(moments, after, supply), ?_, hcompletes⟩
    simp only [hpause, ok_bind, pure, Except.pure, Demand.answer, hanswer]
  cases source with
  | immediate value => exact hpaused value
  | register register =>
      cases register with
      | acc => exact hpaused node.acc
      | nil => exact hpaused 0
      | port port =>
          obtain ⟨k, hport⟩ := hconnected port
          -- the instruction goes on with the supply that is left after the read
          obtain ⟨⟨moments, after⟩, hok, hcompletes⟩ :=
            answer_pauseAfterRead (supply.advance port) hcurrent hreads hconnected
              (supply port 0)
          obtain ⟨pause, hpause, hanswer⟩ := bind_eq_ok.mp hok
          refine ⟨(node.moment (.read port (supply port 0)) :: moments, after,
            supply.advance port), ?_, ?_⟩
          · simp only [demandRead, ok_bind, Demand.answer, channel, hport, hpause, hanswer, pure,
              Except.pure]
          · exact ⟨congrArg _ hcompletes.moments_eq, hcompletes.program_eq,
              hcompletes.ports_eq, hcompletes.machine_eq⟩

theorem answer_demandExecute (hcurrent : node.program[node.ip]? = some instruction)
    (hconnected : ∀ port, ∃ k, node.ports port = some k) :
    Yields (node.demandExecute >>= Demand.answer supply) fun (moments, after, rest) =>
      node.Completes rest (instruction.effect node.ip ⟨node.acc, node.bak, supply⟩)
        moments after := by
  have hprogram : node.program ≠ [] := by
    intro hnil
    rw [hnil] at hcurrent
    cases hcurrent
  -- what has a source is the business of its source
  have hread : ∀ source, instruction.source? = some source →
      Yields (node.demandRead source >>= Demand.answer supply) fun (moments, after, rest) =>
        node.Completes rest (source.effect node.ip ⟨node.acc, node.bak, supply⟩ instruction)
          moments after :=
    fun source hsource => answer_demandRead hcurrent hsource hconnected
  simp only [demandExecute, current, hcurrent, ok_bind]
  cases instruction with
  | plain operation =>
      have hcompletes := completes_finish supply hprogram
        (operation.effect ⟨node.acc, node.bak, supply⟩).acc
        (operation.effect ⟨node.acc, node.bak, supply⟩).bak none
      cases operation <;> exact yields_ok.mpr hcompletes
  | unary operation source => exact hread source rfl
  | move source target => exact hread source rfl
  | jump condition target =>
      exact yields_ok.mpr (completes_finish supply hprogram node.acc node.bak _)

/-- A step of a running node is a step of its machine. -/
theorem IsRunning.answer_demand (hrunning : node.IsRunning) (supply : Supply) :
    Yields (node.demand >>= Demand.answer supply) fun (moments, after, rest) =>
      after.IsRunning ∧ after.program = node.program ∧
        (moments, after.machine rest) = (node.machine supply).step node.program := by
  unfold demand
  by_cases hprogram : node.program = []
  -- without instructions, a node only counts the cycle
  · have hempty : Node.program { node with requested := node.requested + 1 } = [] := hprogram
    simp only [hempty, List.isEmpty_nil, if_true, ok_bind]
    refine yields_ok.mpr ⟨⟨hrunning.connected, fun hnonempty => absurd hempty hnonempty⟩, rfl, ?_⟩
    rw [hprogram]
    rfl
  · have hnext := hrunning.nextIp_lt hprogram
    have hnonempty : ¬ (Node.program { node with requested := node.requested + 1 }).isEmpty = true := by
      rw [List.isEmpty_iff]
      exact hprogram
    simp only [if_neg hnonempty]
    have hcurrent : node.program[node.nextIp]? = some node.program[node.nextIp] :=
      List.getElem?_eq_getElem hnext
    have hanswer : Yields (demandExecute
        { node with requested := node.requested + 1, ip := node.nextIp } >>=
          Demand.answer supply) _ :=
      answer_demandExecute hcurrent hrunning.connected
    refine hanswer.mono ?_
    rintro ⟨moments, after, rest⟩ hcompletes
    have hmachine := hcompletes.machine_eq
    refine ⟨⟨?_, fun _ => ?_⟩, hcompletes.program_eq, ?_⟩
    · rw [hcompletes.ports_eq]
      exact hrunning.connected
    · have hip : after.nextIp = _ := congrArg Machine.ip hmachine
      rw [hip, hcompletes.program_eq]
      exact Nat.mod_lt _ (List.length_pos_iff.mpr hprogram)
    · rw [hmachine, hcompletes.moments_eq]
      simp only [Machine.step, machine, List.getElem?_eq_getElem hnext]
      rfl

/-- The history of a running node is the trace of its machine. -/
theorem IsRunning.history_eq_trace (hrunning : node.IsRunning) (supply : Supply) (steps : ℕ) :
    node.history supply steps = .ok ((node.machine supply).trace node.program steps) := by
  induction steps generalizing node supply with
  | zero => rfl
  | succ steps ih =>
      obtain ⟨⟨moments, after, rest⟩, hok, hafter, hprogram, hstep⟩ :=
        hrunning.answer_demand supply
      obtain ⟨demand, hdemand, hanswer⟩ := bind_eq_ok.mp hok
      simp only [history, hdemand, ok_bind, hanswer, ih hafter, hprogram, Machine.trace, ← hstep]
      rfl

end Node

end NodeGrid

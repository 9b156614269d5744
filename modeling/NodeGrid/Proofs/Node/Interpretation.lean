import NodeGrid.Proofs.Node.Interpreter
import NodeGrid.Proofs.Participant.Streams

/-!
# Nodes do what the interpreter does

`Node.Interprets` compares a node with the interpreter of its program that has
executed as many instructions with the values that came in.  Between two steps both
have the same registers, and the communications of the node are the port events of
the interpreter.  A node that waits in a step has the registers of the interpreter
before that step, and waits with what the interpreter does next.

A node and the interpreter at the same instruction get equally far with it, whatever
the instruction (`Node.exists_stopsAt`, `Node.exists_stopsAt_of_source_eq_none`).  So a
node that is left alone does what the interpreter does from one demand to the next
(`Demand.Leads.interprets`), and so does a node in a network, which is always where
the node by itself gets to (`Node.Runs.interprets`).  That it was suspended and
resumed in between shows nowhere, not even in its status (`Node.ShowsStatus`).
-/

namespace NodeGrid

variable {n : ℕ}

/-! ## Port events and communications -/

/-- The communication that a port event is with these channels behind the ports. -/
def PortEvent.comm? (ports : Port → Option (Fin n)) : PortEvent → Option (Comm n)
  | .read port value => (ports port).map fun k => .received k value
  | .write port value => (ports port).map fun k => .sent k value

/-- The value that has come in, if one has. -/
def Comm.incoming? : Comm n → Option Int64
  | .sent _ _ => none
  | .received _ value => some value

/-- The values that come in with communications. -/
def incoming (comms : List (Comm n)) : List Int64 := comms.filterMap Comm.incoming?

/-- The port events are these communications. -/
def Records (ports : Port → Option (Fin n)) (events : List PortEvent) (comms : List (Comm n)) :
    Prop :=
  events.map (PortEvent.comm? ports) = comms.map some

section Records

variable {ports : Port → Option (Fin n)} {events : List PortEvent} {comms : List (Comm n)}
  {port : Port} {k : Fin n} {value : Int64}

theorem Records.read (hrecords : Records ports events comms) (hport : ports port = some k) :
    Records ports (events ++ [.read port value]) (comms ++ [.received k value]) := by
  simp only [Records, List.map_append, List.map_cons, List.map_nil, PortEvent.comm?, hport,
    Option.map_some]
  rw [hrecords]

theorem Records.write (hrecords : Records ports events comms) (hport : ports port = some k) :
    Records ports (events ++ [.write port value]) (comms ++ [.sent k value]) := by
  simp only [Records, List.map_append, List.map_cons, List.map_nil, PortEvent.comm?, hport,
    Option.map_some]
  rw [hrecords]

theorem Records.comms_eq (hrecords : Records ports events comms) :
    comms = events.filterMap (PortEvent.comm? ports) := by
  calc comms = (comms.map some).filterMap id := by rw [List.filterMap_map]; exact List.filterMap_some.symm
    _ = (events.map (PortEvent.comm? ports)).filterMap id := by rw [hrecords]
    _ = events.filterMap (PortEvent.comm? ports) := by rw [List.filterMap_map]; rfl

@[simp] theorem incoming_received : incoming (comms ++ [.received k value]) =
    incoming comms ++ [value] := by
  simp [incoming, Comm.incoming?]

@[simp] theorem incoming_sent : incoming (comms ++ [.sent k value]) = incoming comms := by
  simp [incoming, Comm.incoming?]

end Records

theorem Operand.port?_eq_some_iff {operand : Operand} {port : Port} :
    operand.port? = some port ↔ operand = .register (.port port) := by
  rcases operand with value | register
  · simp [Operand.port?]
  · cases register <;> simp [Operand.port?, Register.port?]

/-! ## Comparing a node with the interpreter -/

namespace Node

/-- The interpreter that has executed as many instructions as the node, with the values
that have come in. -/
def interpreter? (node : Node n) (comms : List (Comm n)) (executed : ℕ) : Option Interpreter :=
  (Interpreter.start (incoming comms)).run node.program executed

/-- The node has the registers of the interpreter. -/
structure Holds (node : Node n) (interpreter : Interpreter) : Prop where
  acc_eq : node.acc = interpreter.acc
  bak_eq : node.bak = interpreter.bak
  nextIp_eq : node.nextIp = interpreter.ip

/-- The node has done what the interpreter does, and waits with the given operation, if
it waits.  Its communications since it began its program are `comms`. -/
inductive Interprets (node : Node n) (comms : List (Comm n)) : Option PortOperation → Prop where
  /-- Between two steps.  The instruction started last is the one executed last. -/
  | settled {last interpreter : Interpreter}
      (hlast : node.interpreter? comms (node.executed - 1) = some last) (hip : node.ip = last.ip)
      (hrun : node.interpreter? comms node.executed = some interpreter)
      (hholds : node.Holds interpreter) (hinbox : interpreter.inbox = [])
      (hrecords : Records node.ports interpreter.events comms) : Interprets node comms none
  /-- The next instruction reads a port, at which no value has come in yet. -/
  | reading {interpreter : Interpreter} {instruction : Instruction} {port : Port}
      (hrun : node.interpreter? comms node.executed = some interpreter)
      (hholds : node.Holds interpreter) (hip : node.ip = interpreter.ip)
      (hinbox : interpreter.inbox = []) (hrecords : Records node.ports interpreter.events comms)
      (hcurrent : node.program[interpreter.ip]? = some instruction)
      (hport : instruction.readPort? = some port) : Interprets node comms (some (.read port))
  /-- The next instruction writes a port the value of its source, which it has read. -/
  | writing {interpreter fetched : Interpreter} {source : Operand} {port : Port} {value : Int64}
      (hrun : node.interpreter? comms node.executed = some interpreter)
      (hholds : node.Holds interpreter) (hip : node.ip = interpreter.ip)
      (hcurrent : node.program[interpreter.ip]? = some (.move source (.port port)))
      (hfetch : interpreter.fetch source = some (value, fetched)) (hinbox : fetched.inbox = [])
      (hrecords : Records node.ports fetched.events comms) :
      Interprets node comms (some (.write port value))

variable {node other : Node n} {comms : List (Comm n)} {operation : Option PortOperation}
  {interpreter next : Interpreter}

theorem Interprets.of_core (hinterprets : node.Interprets comms operation)
    (hcore : node.core = other.core) : other.Interprets comms operation := by
  -- what is interpreted does not look at the counters of cycles
  have hprogram : node.program = other.program :=
    show node.core.program = other.core.program by rw [hcore]
  have hexecuted : node.executed = other.executed := congrArg (·.executed) hcore
  have hports : node.ports = other.ports := congrArg (·.ports) hcore
  have hip : node.ip = other.ip := congrArg (·.ip) hcore
  have hholds : ∀ {interpreter}, node.Holds interpreter → other.Holds interpreter :=
    fun hholds => ⟨(congrArg (·.acc) hcore).symm.trans hholds.acc_eq,
      (congrArg (·.bak) hcore).symm.trans hholds.bak_eq,
      (congrArg (·.nextIp) hcore).symm.trans hholds.nextIp_eq⟩
  have hinterpreter : ∀ executed, node.interpreter? comms executed = other.interpreter? comms executed :=
    fun executed => by rw [interpreter?, interpreter?, hprogram]
  cases hinterprets with
  | settled hlast hlastIp hrun hregisters hinbox hrecords =>
      rw [hinterpreter, hexecuted] at hlast hrun
      exact .settled hlast (hip ▸ hlastIp) hrun (hholds hregisters) hinbox (hports ▸ hrecords)
  | reading hrun hregisters hat hinbox hrecords hcurrent hport =>
      rw [hinterpreter, hexecuted] at hrun
      exact .reading hrun (hholds hregisters) (hip ▸ hat) hinbox (hports ▸ hrecords)
        (hprogram ▸ hcurrent) hport
  | writing hrun hregisters hat hcurrent hfetch hinbox hrecords =>
      rw [hinterpreter, hexecuted] at hrun
      exact .writing hrun (hholds hregisters) (hip ▸ hat) (hprogram ▸ hcurrent) hfetch hinbox
        (hports ▸ hrecords)

theorem Continues.program_eq (hcontinues : node.Continues other) : other.program = node.program := by
  rw [program, program, hcontinues.compilation_eq]

/-! ## Executing an instruction -/

/-- The node is at the next instruction of the interpreter and has its registers. -/
structure Tracks (node : Node n) (interpreter : Interpreter) : Prop where
  acc_eq : node.acc = interpreter.acc
  bak_eq : node.bak = interpreter.bak
  ip_eq : node.ip = interpreter.ip

variable {instruction : Instruction} {source : Operand} {value : Int64} {fetched : Interpreter}
  {pause : Pause n}

theorem Tracks.of_fetch (htracks : node.Tracks interpreter)
    (hfetch : interpreter.fetch source = some (value, fetched)) : node.Tracks fetched := by
  obtain ⟨hacc, hbak, hip⟩ := Interpreter.registers_of_fetch hfetch
  exact ⟨htracks.acc_eq.trans hacc.symm, htracks.bak_eq.trans hbak.symm,
    htracks.ip_eq.trans hip.symm⟩

/-- Where a node stops with an instruction whose source it has.  The interpreter has fetched
the source as well, and completes the instruction at `next`. -/
inductive StopsAt (node : Node n) (instruction : Instruction)
    (interpreter fetched next : Interpreter) : Pause n → Prop where
  /-- The node completes the instruction with the registers of the interpreter. -/
  | settled {acc bak : Int64} {target : Option ℕ} (hacc : acc = next.acc) (hbak : bak = next.bak)
      (hip : target.getD (node.ip + 1) % node.program.length = next.ip)
      (hinbox : next.inbox = fetched.inbox) (hevents : next.events = fetched.events) :
      StopsAt node instruction interpreter fetched next
        (.settled (finish { node with acc, bak } target))
  /-- The node offers the value that the interpreter writes. -/
  | writing {source : Operand} {port : Port} {value : Int64} (htracks : node.Tracks fetched)
      (hinstruction : instruction = .move source (.port port))
      (hfetch : interpreter.fetch source = some (value, fetched))
      (hnext : next = (fetched.store value (.port port)).goto node.program.length none) :
      StopsAt node instruction interpreter fetched next (.writing port value node)

/-- A node that goes on with the value of its source. -/
theorem exists_stopsAt (hcurrent : node.program[node.ip]? = some instruction)
    (hsource : instruction.source? = some source) (htracks : node.Tracks interpreter)
    (hfetch : interpreter.fetch source = some (value, fetched)) :
    ∃ pause next, node.pauseAfterRead value = .ok pause ∧
      interpreter.execute node.program.length instruction = some next ∧
      node.StopsAt instruction interpreter fetched next pause := by
  have hfetched := htracks.of_fetch hfetch
  have hnext : (node.ip + 1) % node.program.length = (fetched.ip + 1) % node.program.length := by
    rw [hfetched.ip_eq]
  rw [pauseAfterRead, current_eq_ok hcurrent, ok_bind]
  cases instruction with
  | plain operation => cases hsource
  | jump condition target => cases hsource
  | unary operation operand =>
      cases hsource
      simp only [Interpreter.execute, hfetch, Option.bind_eq_bind, Option.bind_some]
      cases operation with
      | add =>
          refine ⟨_, _, rfl, rfl, .settled ?_ hfetched.bak_eq hnext rfl rfl⟩
          rw [hfetched.acc_eq]
          exact (wrap_add _ _).symm
      | sub =>
          refine ⟨_, _, rfl, rfl, .settled ?_ hfetched.bak_eq hnext rfl rfl⟩
          rw [hfetched.acc_eq]
          exact (wrap_sub _ _).symm
      | jro =>
          refine ⟨_, _, rfl, rfl, .settled hfetched.acc_eq hfetched.bak_eq ?_ rfl rfl⟩
          -- both jump from where the instruction stands
          rw [hfetched.ip_eq, ← jumpIndex_eq]
          rfl
  | move operand target =>
      cases hsource
      simp only [Interpreter.execute, hfetch, Option.bind_eq_bind, Option.bind_some]
      cases target with
      | acc => exact ⟨_, _, rfl, rfl, .settled rfl hfetched.bak_eq hnext rfl rfl⟩
      | nil => exact ⟨_, _, rfl, rfl, .settled hfetched.acc_eq hfetched.bak_eq hnext rfl rfl⟩
      -- the write is still to come, so the interpreter is a step ahead
      | port port => exact ⟨_, _, rfl, rfl, .writing hfetched rfl hfetch rfl⟩

/-- A node at an instruction that reads nothing. -/
theorem exists_stopsAt_of_source_eq_none (hcurrent : node.program[node.ip]? = some instruction)
    (hsource : instruction.source? = none) (htracks : node.Tracks interpreter) :
    ∃ pause next, node.demandExecute = .ok (.paused pause) ∧
      interpreter.execute node.program.length instruction = some next ∧
      node.StopsAt instruction interpreter interpreter next pause := by
  obtain ⟨hacc, hbak, hip⟩ := htracks
  have hnext : (node.ip + 1) % node.program.length =
      (interpreter.ip + 1) % node.program.length := by rw [hip]
  rw [demandExecute, current_eq_ok hcurrent, ok_bind]
  -- without a source an instruction cannot wait, and is settled in every case
  cases instruction with
  | unary operation operand => cases hsource
  | move operand target => cases hsource
  | plain operation =>
      cases operation with
      | nop => exact ⟨_, _, rfl, rfl, .settled hacc hbak hnext rfl rfl⟩
      | neg =>
          refine ⟨_, _, rfl, rfl, .settled ?_ hbak hnext rfl rfl⟩
          exact (congrArg _ hacc).trans (wrap_neg _).symm
      | sav => exact ⟨_, _, rfl, rfl, .settled hacc hacc hnext rfl rfl⟩
      | swp => exact ⟨_, _, rfl, rfl, .settled hbak hacc hnext rfl rfl⟩
  | jump condition target =>
      refine ⟨_, _, rfl, rfl, .settled hacc hbak ?_ rfl rfl⟩
      rw [hacc, hip, ← Condition.taken_eq]
      rfl

theorem demandExecute_eq_demandRead (hcurrent : node.program[node.ip]? = some instruction)
    (hsource : instruction.source? = some source) :
    node.demandExecute = node.demandRead source := by
  rw [demandExecute, current_eq_ok hcurrent, ok_bind]
  cases instruction <;> cases hsource <;> rfl

/-- A source that is no port has its value at once. -/
theorem demandRead_cases (source : Operand) (htracks : node.Tracks interpreter) :
    (∃ port, source = .register (.port port)) ∨
      ∃ value, interpreter.fetch source = some (value, interpreter) ∧
        node.demandRead source = (do return Demand.paused (← node.pauseAfterRead value)) := by
  cases source with
  | immediate value => exact .inr ⟨value, rfl, rfl⟩
  | register register =>
      cases register with
      | acc => exact .inr ⟨node.acc, by rw [htracks.acc_eq]; rfl, rfl⟩
      | nil => exact .inr ⟨0, rfl, rfl⟩
      | port port => exact .inl ⟨port, rfl⟩

/-! ## Steps of a node that is left alone -/

/-- The node is executing the instruction that is next for the interpreter. -/
structure IsExecuting (node : Node n) (comms : List (Comm n)) (interpreter : Interpreter) :
    Prop where
  run_eq : node.interpreter? comms node.executed = some interpreter
  holds : node.Holds interpreter
  ip_eq : node.ip = interpreter.ip

theorem IsExecuting.tracks (hexecuting : node.IsExecuting comms interpreter) :
    node.Tracks interpreter :=
  ⟨hexecuting.holds.acc_eq, hexecuting.holds.bak_eq, hexecuting.ip_eq⟩

/-- A node that completes the instruction with the registers of the interpreter. -/
theorem IsExecuting.interprets_finish (hexecuting : node.IsExecuting comms interpreter)
    (hstep : interpreter.step node.program = some next) {acc bak : Int64} (hacc : acc = next.acc)
    (hbak : bak = next.bak) {target : Option ℕ}
    (hip : target.getD (node.ip + 1) % node.program.length = next.ip) (hinbox : next.inbox = [])
    (hrecords : Records node.ports next.events comms) :
    (finish { node with acc, bak } target).Interprets comms none := by
  have hprogram : Node.program { node with acc, bak } ≠ [] := by
    obtain ⟨instruction, hcurrent, -⟩ := Option.bind_eq_some_iff.mp hstep
    exact List.ne_nil_of_mem (List.mem_of_getElem? hcurrent)
  have hrun : node.interpreter? comms (node.executed + 1) = some next :=
    Option.bind_eq_some_iff.mpr ⟨interpreter, hexecuting.run_eq, hstep⟩
  exact .settled hexecuting.run_eq hexecuting.ip_eq hrun
    ⟨hacc, hbak, (nextIp_finish hprogram target).trans hip⟩ hinbox hrecords

/-- A node that stops with an instruction whose source it has. -/
theorem IsExecuting.interprets_pause (hexecuting : node.IsExecuting comms interpreter)
    (hcurrent : node.program[interpreter.ip]? = some instruction)
    (hexecute : interpreter.execute node.program.length instruction = some next)
    (hinbox : fetched.inbox = []) (hrecords : Records node.ports fetched.events comms)
    (hstops : node.StopsAt instruction interpreter fetched next pause) :
    pause.node.Interprets comms pause.operation? := by
  have hstep := (Interpreter.step_of_getElem? hcurrent).trans hexecute
  cases hstops with
  | settled hacc hbak hip hsameInbox hsameEvents =>
      exact hexecuting.interprets_finish hstep hacc hbak hip (hsameInbox.trans hinbox)
        (hsameEvents ▸ hrecords)
  | writing htracks hinstruction hfetch hnext =>
      subst hinstruction
      exact .writing hexecuting.run_eq hexecuting.holds hexecuting.ip_eq hcurrent hfetch hinbox
        hrecords

/-- A node that goes on with the value of its source. -/
theorem IsExecuting.interprets_pauseAfterRead (hexecuting : node.IsExecuting comms interpreter)
    (hcurrent : node.program[interpreter.ip]? = some instruction)
    (hsource : instruction.source? = some source)
    (hfetch : interpreter.fetch source = some (value, fetched)) (hinbox : fetched.inbox = [])
    (hrecords : Records node.ports fetched.events comms)
    (hpause : node.pauseAfterRead value = .ok pause) :
    pause.node.Interprets comms pause.operation? := by
  obtain ⟨stopped, next, hstopped, hexecute, hstops⟩ :=
    exists_stopsAt (hexecuting.ip_eq ▸ hcurrent) hsource hexecuting.tracks hfetch
  cases hstopped.symm.trans hpause
  exact hexecuting.interprets_pause hcurrent hexecute hinbox hrecords hstops

/-- A node that reads its source. -/
theorem IsExecuting.interprets_demandRead (hexecuting : node.IsExecuting comms interpreter)
    (hcurrent : node.program[interpreter.ip]? = some instruction)
    (hsource : instruction.source? = some source) (hinbox : interpreter.inbox = [])
    (hrecords : Records node.ports interpreter.events comms) {demand : Demand n}
    (hdemand : node.demandRead source = .ok demand) :
    demand.node.Interprets comms demand.operation? := by
  obtain ⟨port, rfl⟩ | ⟨value, hfetch, hread⟩ := demandRead_cases source hexecuting.tracks
  · cases hdemand
    refine .reading hexecuting.run_eq hexecuting.holds hexecuting.ip_eq hinbox hrecords hcurrent ?_
    rw [Instruction.readPort?, hsource]
    rfl
  · obtain ⟨pause, hpause, hreturn⟩ := bind_eq_ok.mp (hread.symm.trans hdemand)
    cases hreturn
    exact hexecuting.interprets_pauseAfterRead hcurrent hsource hfetch hinbox hrecords hpause

theorem current_eq_ok_iff :
    node.current = .ok instruction ↔ node.program[node.ip]? = some instruction := by
  unfold current
  cases node.program[node.ip]? <;> simp

/-- A node that begins a step. -/
theorem Interprets.demand (hsettled : node.Interprets comms none) (hprogram : node.program ≠ [])
    {demand : Demand n} (hdemand : node.demand = .ok demand) :
    demand.node.Interprets comms demand.operation? := by
  cases hsettled with
  | @settled last interpreter hlast hip hrun hholds hinbox hrecords =>
      rw [demand_eq, if_neg (by simpa using hprogram)] at hdemand
      obtain ⟨instruction, hfound, -⟩ := bind_eq_ok.mp hdemand
      have hcurrent := current_eq_ok_iff.mp hfound
      have hexecuting : IsExecuting { node.stall with ip := node.nextIp } comms interpreter :=
        ⟨hrun, ⟨hholds.acc_eq, hholds.bak_eq, hholds.nextIp_eq⟩, hholds.nextIp_eq⟩
      have hnext := hexecuting.ip_eq ▸ hcurrent
      -- an instruction without a source stops at once, any other asks for its value first
      cases hsource : instruction.source? with
      | none =>
          obtain ⟨pause, next, hpaused, hexecute, hstops⟩ :=
            exists_stopsAt_of_source_eq_none hcurrent hsource hexecuting.tracks
          cases hpaused.symm.trans hdemand
          exact hexecuting.interprets_pause hnext hexecute hinbox hrecords hstops
      | some source =>
          rw [demandExecute_eq_demandRead hcurrent hsource] at hdemand
          exact hexecuting.interprets_demandRead hnext hsource hinbox hrecords hdemand

/-- A node whose value is accepted. -/
theorem Interprets.sent {port : Port} {k : Fin n}
    (hwriting : node.Interprets comms (some (.write port value)))
    (hport : node.ports port = some k) :
    (node.finish none).Interprets (comms ++ [.sent k value]) none := by
  cases hwriting with
  | writing hrun hholds hip hcurrent hfetch hinbox hrecords =>
      rename_i interpreter fetched source
      have hexecuting : node.IsExecuting (comms ++ [.sent k value]) interpreter :=
        ⟨by rwa [interpreter?, incoming_sent], hholds, hip⟩
      have hfetched := hexecuting.tracks.of_fetch hfetch
      have hstep := Interpreter.step_of_getElem? hcurrent
      simp only [Interpreter.execute, hfetch, Option.bind_eq_bind, Option.bind_some] at hstep
      refine hexecuting.interprets_finish hstep hfetched.acc_eq hfetched.bak_eq ?_ hinbox
        (hrecords.write hport)
      rw [hfetched.ip_eq]
      rfl

/-- A node that gets the value that it asked for. -/
theorem Interprets.received {port : Port} {k : Fin n}
    (hreading : node.Interprets comms (some (.read port))) (hport : node.ports port = some k)
    {pause : Pause n} (hpause : node.pauseAfterRead value = .ok pause) :
    pause.node.Interprets (comms ++ [.received k value]) pause.operation? := by
  cases hreading with
  | reading hrun hholds hip hinbox hrecords hcurrent hreads =>
      rename_i interpreter instruction
      obtain ⟨source, hsource, hread⟩ := Option.bind_eq_some_iff.mp hreads
      -- the value is put at the end of the supply, and the run before it stays the same
      have hexecuting : node.IsExecuting (comms ++ [.received k value])
          (interpreter.supply [value]) := by
        refine ⟨?_, ⟨hholds.acc_eq, hholds.bak_eq, hholds.nextIp_eq⟩, hip⟩
        rw [interpreter?, incoming_received]
        exact Interpreter.run_supply [value] hrun
      have hfetch : (interpreter.supply [value]).fetch source =
          some (value, { interpreter with events := interpreter.events ++ [.read port value] }) := by
        rw [Operand.port?_eq_some_iff.mp hread]
        simp [Interpreter.fetch, Interpreter.supply, hinbox]
      exact hexecuting.interprets_pauseAfterRead hcurrent hsource hfetch hinbox
        (hrecords.read hport) hpause

end Node

/-- A node that is left alone does what the interpreter does. -/
theorem Demand.Leads.interprets {first second : Demand n} {before comms : List (Comm n)}
    (hleads : Demand.Leads first comms second) (hprogram : first.node.program ≠ [])
    (hfirst : first.node.Interprets before first.operation?) :
    second.node.Interprets (before ++ comms) second.operation? := by
  induction hleads generalizing before with
  | refl demand => simpa using hfirst
  | begin hdemand hrest ih =>
      refine ih ?_ (hfirst.demand hprogram hdemand)
      rwa [(Node.continues_demand hdemand).program_eq]
  | sent hport hrest ih =>
      rw [List.append_cons]
      exact ih hprogram (hfirst.sent hport)
  | received hport hpause hrest ih =>
      rw [List.append_cons]
      refine ih ?_ (hfirst.received hport hpause)
      exact (Node.continues_pauseAfterRead hpause).program_eq ▸ hprogram

/-! ## Nodes in a network -/

namespace Node

variable {start node : Node n} {deeds : List (Deed n)}

/-- A new program begins like the interpreter. -/
theorem interprets_load (name : String) (ports : Port → Option (Fin n)) (source : String) :
    ((inert name ports).load source).Interprets [] none :=
  .settled rfl rfl rfl ⟨rfl, rfl, rfl⟩ rfl rfl

/-- A node does what the interpreter does, however often it is suspended. -/
theorem Runs.interprets (hruns : start.Runs deeds node) (hprogram : start.program ≠ [])
    (hstart : start.Interprets [] none) : node.Interprets (comms deeds) node.pending := by
  obtain ⟨demand, hleads, hat⟩ := hruns.leads
  rw [hat.pending_eq]
  exact (hleads.interprets hprogram hstart).of_core hat.core_eq.symm

end Node

/-- What was a node remains one, and does what the interpreter does. -/
theorem Participant.Follows.exists_node {start : Node n} {deeds : List (Deed n)}
    {participant : Participant n} (hfollows : (Participant.node start).Follows deeds participant)
    (hstart : start.Interprets [] none) (hprogram : start.program ≠ []) :
    ∃ node, participant = .node node ∧ node.program = start.program ∧ node.ports = start.ports ∧
      node.Interprets (comms deeds) node.pending := by
  cases hfollows with
  | node hruns =>
      exact ⟨_, rfl, hruns.program_eq, hruns.ports_eq, hruns.interprets hprogram hstart⟩

end NodeGrid

import NodeGrid.Proofs.Network.Confluence
import NodeGrid.Proofs.Node.Completeness
import NodeGrid.Proofs.Peephole.Preservation

/-!
# What programs and their optimised forms perform

A program *performs* a list of port events if its interpreter goes through them with
some values coming in.  The interpreter is fed from a list and stops without a value; the
machine of the program is fed by a supply at every port and never stops.  They perform
the same (`Program.performs_iff`): the list of values that the machine reads makes the
interpreter follow it, and the values that the interpreter has read make a supply for
the machine.

So a program performs what its optimised form performs
(`Program.performs_optimize_iff`), and nodes with the two programs cannot be told apart
by what they communicate (`Demand.Leads.agree_optimize`).
-/

namespace NodeGrid

open List (Forall₂)

/-! ## Values that are read -/

/-- The value that has been read, if one has. -/
def PortEvent.value? : PortEvent → Option Int64
  | .read _ value => some value
  | .write _ _ => none

/-- The values that are read, in order. -/
def readValues (events : List PortEvent) : List Int64 := events.filterMap PortEvent.value?

@[simp] theorem readValues_append (events more : List PortEvent) :
    readValues (events ++ more) = readValues events ++ readValues more :=
  List.filterMap_append

/-- The supply that gives the value first at the port. -/
def Supply.prepend (supply : Supply) (port : Port) (value : Int64) : Supply :=
  Function.update supply port fun index => if index = 0 then value else supply port (index - 1)

@[simp] theorem Supply.prepend_zero (supply : Supply) (port : Port) (value : Int64) :
    supply.prepend port value port 0 = value := by
  simp [prepend]

@[simp] theorem Supply.advance_prepend (supply : Supply) (port : Port) (value : Int64) :
    (supply.prepend port value).advance port = supply := by
  simp [advance, prepend]

theorem Moment.Matches.map_event_eq {moments others : List Moment}
    (hmatches : Forall₂ Moment.Matches moments others) :
    moments.map Moment.event = others.map Moment.event := by
  rw [← List.forall₂_eq_eq_eq, List.forall₂_map_left_iff, List.forall₂_map_right_iff]
  exact hmatches.imp fun _ _ hmatch => hmatch.event_eq.symm

namespace Interpreter

/-- The first instruction is executed first. -/
theorem run_succ (code : Program) (interpreter : Interpreter) (steps : ℕ) :
    interpreter.run code (steps + 1) =
      (interpreter.step code).bind fun next => next.run code steps := by
  induction steps with
  | zero => cases hstep : interpreter.step code <;> simp [run, hstep]
  | succ steps ih =>
      rw [run, ih]
      cases hstep : interpreter.step code <;> simp [run]

end Interpreter

/-! ## The interpreter and the effect of an instruction -/

theorem Instruction.readValues_use (instruction : Instruction) (ip : ℕ) (value : Int64)
    (data : Data) : readValues (instruction.use ip value data).events = [] := by
  cases instruction with
  | plain operation => rfl
  | jump condition target => rfl
  | unary operation source => cases operation <;> rfl
  | move source target => cases target <;> rfl

theorem Instruction.supply_use (instruction : Instruction) (ip : ℕ) (value : Int64)
    (data : Data) : (instruction.use ip value data).data.supply = data.supply := by
  cases instruction with
  | plain operation => rfl
  | jump condition target => rfl
  | unary operation source => cases operation <;> rfl
  | move source target => cases target <;> rfl

namespace Machine

/-- The port events of a step. -/
def stepEvents (code : Program) (machine : Machine) : List PortEvent :=
  (machine.step code).1.map Moment.event

/-- The port events of the given number of steps. -/
def events (code : Program) (machine : Machine) (steps : ℕ) : List PortEvent :=
  (machine.trace code steps).map Moment.event

theorem events_nil (machine : Machine) (steps : ℕ) : machine.events [] steps = [] := by
  induction steps with
  | zero => rfl
  | succ steps ih => exact ih

theorem events_succ (code : Program) (machine : Machine) (steps : ℕ) :
    machine.events code (steps + 1) =
      machine.stepEvents code ++ (machine.step code).2.events code steps := by
  simp [events, stepEvents, trace]

theorem stepEvents_of_getElem? {code : Program} {machine : Machine} {instruction : Instruction}
    (hcurrent : code[machine.ip]? = some instruction) :
    machine.stepEvents code = (instruction.effect machine.ip machine.data).events := by
  simp [stepEvents, step_of_getElem? hcurrent, Function.comp_def, moment]

/-- The interpreter with the registers of the machine. -/
def interpreter (machine : Machine) (inbox : List Int64) (events : List PortEvent) :
    Interpreter where
  acc := machine.data.acc
  bak := machine.data.bak
  ip := machine.ip
  inbox
  events

theorem fetch_interpreter (machine : Machine) (rest : List Int64) (before : List PortEvent)
    (source : Operand) :
    (machine.interpreter (readValues (source.fetch machine.data).2.1 ++ rest) before).fetch source =
      some ((source.fetch machine.data).1,
        { machine with data := (source.fetch machine.data).2.2 }.interpreter rest
          (before ++ (source.fetch machine.data).2.1)) := by
  cases source with
  | immediate value => simp [Operand.fetch, Interpreter.fetch, interpreter, readValues]
  | register register =>
      cases register <;>
        simp [Operand.fetch, Interpreter.fetch, interpreter, readValues, PortEvent.value?]

/-- The interpreter executes an instruction to its effect if it is given what the
instruction reads. -/
theorem execute_interpreter (machine : Machine) (rest : List Int64) (before : List PortEvent)
    (length : ℕ) (instruction : Instruction) :
    (machine.interpreter
        (readValues (instruction.effect machine.ip machine.data).events ++ rest) before).execute
        length instruction =
      some ((machine.apply length (instruction.effect machine.ip machine.data)).interpreter rest
        (before ++ (instruction.effect machine.ip machine.data).events)) := by
  cases instruction with
  | plain operation =>
      cases operation with
      | neg =>
          simp [Interpreter.execute, Instruction.effect, Plain.effect, interpreter, readValues,
            apply, Interpreter.goto, wrap_neg]
      | _ =>
          simp [Interpreter.execute, Instruction.effect, Plain.effect, interpreter, readValues,
            apply, Interpreter.goto]
  | jump condition target =>
      simp [Interpreter.execute, Instruction.effect, interpreter, readValues, apply,
        Interpreter.goto, Condition.taken_eq]
  | unary operation source =>
      simp only [Instruction.effect, Operand.effect, readValues_append,
        Instruction.readValues_use, List.append_nil, Interpreter.execute,
        fetch_interpreter, Option.bind_eq_bind, Option.bind_some]
      cases operation with
      | add => simp [interpreter, Interpreter.goto, Instruction.use, apply, wrap_add]
      | sub => simp [interpreter, Interpreter.goto, Instruction.use, apply, wrap_sub]
      | jro => simp [interpreter, Interpreter.goto, Instruction.use, apply, jumpIndex_eq]
  | move source target =>
      simp only [Instruction.effect, Operand.effect, readValues_append,
        Instruction.readValues_use, List.append_nil, Interpreter.execute,
        fetch_interpreter, Option.bind_eq_bind, Option.bind_some]
      cases target <;>
        simp [interpreter, Interpreter.store, Interpreter.goto, Instruction.use, Register.store,
          apply]

variable {code : Program} {machine : Machine}

theorem step_interpreter (hip : machine.ip < code.length) (rest : List Int64)
    (before : List PortEvent) :
    (machine.interpreter (readValues (machine.stepEvents code) ++ rest) before).step code =
      some ((machine.step code).2.interpreter rest (before ++ machine.stepEvents code)) := by
  have hcurrent : code[machine.ip]? = some code[machine.ip] := List.getElem?_eq_getElem hip
  rw [stepEvents_of_getElem? hcurrent, step_of_getElem? hcurrent,
    Interpreter.step_of_getElem? hcurrent, execute_interpreter]

theorem ip_step_lt (hip : machine.ip < code.length) : (machine.step code).2.ip < code.length := by
  rw [step_of_getElem? (List.getElem?_eq_getElem hip)]
  exact Nat.mod_lt _ (Nat.zero_lt_of_lt hip)

/-- The interpreter follows the machine if it is given what the machine reads. -/
theorem exists_run_interpreter (hip : machine.ip < code.length) (rest : List Int64)
    (before : List PortEvent) (steps : ℕ) :
    ∃ last : Machine,
      (machine.interpreter (readValues (machine.events code steps) ++ rest) before).run code steps =
        some (last.interpreter rest (before ++ machine.events code steps)) := by
  induction steps generalizing machine before with
  | zero => exact ⟨machine, by simp [events, trace, readValues, Interpreter.run]⟩
  | succ steps ih =>
      obtain ⟨last, hlast⟩ := ih (ip_step_lt hip) (before ++ machine.stepEvents code)
      refine ⟨last, ?_⟩
      rw [events_succ, readValues_append, List.append_assoc, Interpreter.run_succ,
        step_interpreter hip, Option.bind_some, hlast, List.append_assoc]

end Machine

namespace Interpreter

variable {code : Program} {interpreter next : Interpreter}

/-- The machine with the registers of the interpreter. -/
def machine (interpreter : Interpreter) (supply : Supply) (executed : ℕ) : Machine where
  data := ⟨interpreter.acc, interpreter.bak, supply⟩
  ip := interpreter.ip
  executed

/-- What an instruction has been given comes from some supply. -/
theorem exists_supply {length : ℕ} {instruction : Instruction}
    (hexecute : interpreter.execute length instruction = some next) (later : Supply) :
    ∃ supply rest,
      (instruction.effect interpreter.ip ⟨interpreter.acc, interpreter.bak, supply⟩).data.supply =
        later ∧
      interpreter.inbox = readValues (instruction.effect interpreter.ip
        ⟨interpreter.acc, interpreter.bak, supply⟩).events ++ rest := by
  -- only a port looks at the supply
  have hread : ∀ source, instruction.source? = some source →
      (∀ data, instruction.effect interpreter.ip data =
        source.effect interpreter.ip data instruction) →
      ∃ supply rest,
        (instruction.effect interpreter.ip ⟨interpreter.acc, interpreter.bak, supply⟩).data.supply =
          later ∧
        interpreter.inbox = readValues (instruction.effect interpreter.ip
          ⟨interpreter.acc, interpreter.bak, supply⟩).events ++ rest := by
    intro source hsource heffect
    obtain ⟨value, fetched, hfetch⟩ := exists_fetch hsource hexecute
    simp only [heffect, Operand.effect, Instruction.supply_use, readValues_append,
      Instruction.readValues_use, List.append_nil]
    cases source with
    | immediate value => exact ⟨later, interpreter.inbox, rfl, rfl⟩
    | register register =>
        cases register with
        | acc => exact ⟨later, interpreter.inbox, rfl, rfl⟩
        | nil => exact ⟨later, interpreter.inbox, rfl, rfl⟩
        | port port =>
            obtain ⟨rest, hinbox, -⟩ := exists_of_fetch hfetch
            refine ⟨later.prepend port value, rest, later.advance_prepend port value, ?_⟩
            simpa [Operand.fetch, readValues, PortEvent.value?] using hinbox
  cases instruction with
  | plain operation =>
      refine ⟨later, interpreter.inbox, ?_, rfl⟩
      cases operation <;> rfl
  | jump condition target => exact ⟨later, interpreter.inbox, rfl, rfl⟩
  | unary operation source => exact hread source rfl fun _ => rfl
  | move source target => exact hread source rfl fun _ => rfl

theorem exists_step_machine (hstep : interpreter.step code = some next) (later : Supply)
    (executed : ℕ) :
    ∃ supply,
      ((interpreter.machine supply executed).step code).2 = next.machine later (executed + 1) ∧
      next.events =
        interpreter.events ++ (interpreter.machine supply executed).stepEvents code := by
  obtain ⟨instruction, hcurrent, hexecute⟩ := Option.bind_eq_some_iff.mp hstep
  obtain ⟨supply, rest, hlater, hinbox⟩ := exists_supply hexecute later
  -- the machine reads from the supply what the interpreter has read from its inbox
  have heffect := (interpreter.machine supply executed).execute_interpreter rest interpreter.events
    code.length instruction
  rw [show Machine.interpreter _ _ _ = interpreter from by
    simp only [Machine.interpreter, machine]
    rw [← hinbox], hexecute] at heffect
  cases heffect
  refine ⟨supply, ?_, ?_⟩
  · rw [Machine.step_of_getElem? hcurrent]
    simp [machine, Machine.interpreter, Machine.apply, ← hlater]
  · rw [Machine.stepEvents_of_getElem? hcurrent]
    rfl

/-- The machine follows the interpreter if it is supplied with what the interpreter has
read. -/
theorem exists_events_machine {steps : ℕ} (hrun : interpreter.run code steps = some next)
    (executed : ℕ) :
    ∃ supply, next.events =
      interpreter.events ++ (interpreter.machine supply executed).events code steps := by
  induction steps generalizing interpreter executed with
  | zero =>
      cases hrun
      exact ⟨fun _ _ => 0, (List.append_nil _).symm⟩
  | succ steps ih =>
      rw [run_succ] at hrun
      obtain ⟨between, hstep, hrest⟩ := Option.bind_eq_some_iff.mp hrun
      obtain ⟨later, hlater⟩ := ih hrest (executed + 1)
      obtain ⟨supply, hmachine, hevents⟩ := exists_step_machine hstep later executed
      refine ⟨supply, ?_⟩
      rw [Machine.events_succ, hmachine, ← List.append_assoc, ← hevents, hlater]

end Interpreter

/-! ## What a program performs -/

namespace Program

variable {code : Program} {events : List PortEvent}

/-- The program can go through these port events. -/
def Performs (code : Program) (events : List PortEvent) : Prop :=
  ∃ inbox steps last, (Interpreter.start inbox).run code steps = some last ∧ last.events = events

/-- The interpreter of a program performs the same as its machine. -/
theorem performs_iff : code.Performs events ↔
    ∃ supply steps, (Machine.start ⟨0, 0, supply⟩).events code steps = events := by
  constructor
  · rintro ⟨inbox, steps, last, hrun, rfl⟩
    obtain ⟨supply, hsupply⟩ := Interpreter.exists_events_machine hrun 0
    exact ⟨supply, steps, hsupply.symm⟩
  · rintro ⟨supply, steps, rfl⟩
    rcases eq_or_ne code [] with rfl | hprogram
    · exact ⟨[], 0, _, rfl, (Machine.events_nil _ _).symm⟩
    · have hip : (Machine.start ⟨0, 0, supply⟩).ip < code.length :=
        List.length_pos_of_ne_nil hprogram
      obtain ⟨last, hlast⟩ := Machine.exists_run_interpreter hip [] [] steps
      exact ⟨_, steps, _, hlast, rfl⟩

/-- The optimised program performs the same as the original. -/
theorem performs_optimize_iff : code.optimize.Performs events ↔ code.Performs events := by
  have hrefines := refines_optimize code
  rw [performs_iff, performs_iff]
  constructor
  · rintro ⟨supply, steps, rfl⟩
    obtain ⟨more, hmatches⟩ := hrefines.exists_original ⟨0, 0, supply⟩ steps
    exact ⟨supply, more, Moment.Matches.map_event_eq hmatches⟩
  · rintro ⟨supply, steps, rfl⟩
    obtain ⟨fewer, hmatches⟩ := hrefines.exists_optimized ⟨0, 0, supply⟩ steps
    exact ⟨supply, fewer, (Moment.Matches.map_event_eq hmatches).symm⟩

end Program

/-! ## Nodes -/

section Nodes

variable {n : ℕ} {node : Node n} {allowed : Fin n → Prop} {last : Demand n} {comms : List (Comm n)}
  {events : List PortEvent}

namespace Demand.Leads

/-- A node without instructions does not communicate. -/
theorem eq_nil_of_program (hleads : Demand.Leads (.paused (.settled node)) comms last)
    (hprogram : node.program = []) : comms = [] := by
  refine List.eq_nil_iff_forall_not_mem.mpr fun comm hmem => ?_
  have huse := hleads.isUse trivial comm hmem
  cases comm <;>
    simp [Comm.IsUse, Demand.node, Pause.node, Node.reads, Node.writes, hprogram] at huse

/-- What a node communicates, its program begins to perform. -/
theorem performs (hleads : Demand.Leads (.paused (.settled node)) comms last)
    (hprogram : node.program ≠ []) (hstart : node.Interprets [] none) :
    ∃ events rest, node.program.Performs (events ++ rest) ∧ Records node.ports events comms := by
  have hinterprets := hleads.interprets hprogram hstart
  have hcontinues : node.Continues last.node := hleads.continues
  rw [List.nil_append] at hinterprets
  generalize last.operation? = operation at hinterprets
  cases hinterprets with
  | settled hlast hip hrun hholds hinbox hrecords =>
      rw [hcontinues.ports_eq] at hrecords
      rw [Node.interpreter?, hcontinues.program_eq] at hrun
      exact ⟨_, [], ⟨_, _, _, hrun, (List.append_nil _).symm⟩, hrecords⟩
  | reading hrun hholds hip hinbox hrecords hcurrent hport =>
      rw [hcontinues.ports_eq] at hrecords
      rw [Node.interpreter?, hcontinues.program_eq] at hrun
      exact ⟨_, [], ⟨_, _, _, hrun, (List.append_nil _).symm⟩, hrecords⟩
  | writing hrun hholds hip hcurrent hfetch hinbox hrecords =>
      rename_i interpreter fetched source port value
      rw [hcontinues.ports_eq] at hrecords
      rw [Node.interpreter?, hcontinues.program_eq] at hrun
      rw [hcontinues.program_eq] at hcurrent
      -- the write is still to come
      have hstep := Interpreter.step_of_getElem? hcurrent
      simp only [Interpreter.execute, hfetch, Option.bind_eq_bind, Option.bind_some] at hstep
      exact ⟨_, [.write port value],
        ⟨_, last.node.executed + 1, _, Option.bind_eq_some_iff.mpr ⟨_, hrun, hstep⟩, rfl⟩, hrecords⟩

end Demand.Leads

/-- What a program performs, a node with connected ports can do by itself. -/
theorem Program.Performs.leads (hperforms : node.program.Performs events)
    (hstart : node.Holds (.start [])) (hwired : node.IsWired allowed) :
    ∃ comms last, Demand.Leads (.paused (.settled node)) comms last ∧
      Records node.ports events comms := by
  obtain ⟨inbox, steps, next, hrun, rfl⟩ := hperforms
  have hholds : node.Holds (.start inbox) := ⟨hstart.acc_eq, hstart.bak_eq, hstart.nextIp_eq⟩
  obtain ⟨events, hevents, comms, after, hleads, -, hrecords⟩ := hholds.attains_run hwired hrun
  rw [hevents]
  exact ⟨comms, _, hleads, hrecords⟩

/-- The first communications are those of the first port events. -/
theorem Records.prefix_of_append {ports : Port → Option (Fin n)} {rest : List PortEvent}
    {longer : List (Comm n)} (hrecords : Records ports events comms)
    (hlonger : Records ports (events ++ rest) longer) : comms <+: longer := by
  rw [Records, List.map_append, hrecords] at hlonger
  exact (List.prefix_map_iff_of_injective (Option.some_injective _)).mp ⟨_, hlonger⟩

/-- A node with the optimised program does not differ first in anything but a value that
it receives. -/
theorem Demand.Leads.agree_optimize {optimized : Node n} {later : List (Comm n)} {target : Demand n}
    (hleads : Demand.Leads (.paused (.settled node)) comms last)
    (hother : Demand.Leads (.paused (.settled optimized)) later target)
    (hports : optimized.ports = node.ports) (hprogram : optimized.program = node.program.optimize)
    (hstart : node.Interprets [] none) (hoptimized : optimized.Holds (.start []))
    (hwired : optimized.IsWired allowed) : Agree comms later := by
  by_cases hnone : node.program = []
  · rw [hleads.eq_nil_of_program hnone]
    exact .left later
  · obtain ⟨events, rest, hperforms, hrecords⟩ := hleads.performs hnone hstart
    rw [← Program.performs_optimize_iff, ← hprogram] at hperforms
    -- the optimised node can do the same by itself
    obtain ⟨longer, reached, hlonger, hsame⟩ := hperforms.leads hoptimized hwired
    rw [hports] at hsame
    obtain ⟨more, rfl⟩ := hrecords.prefix_of_append hsame
    exact (hlonger.agree hother).of_append_left

end Nodes

end NodeGrid

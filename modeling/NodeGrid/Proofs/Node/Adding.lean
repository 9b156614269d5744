import NodeGrid.Proofs.Node.Interpretation

/-!
# Nodes that add

The program of three instructions that reads a value, adds one from another port and writes
the sum goes through its three instructions in turn (`Interpreter.IsAdding`).  So the number
of instructions that a node with it has completed says how many values it has read at
either port and how many sums it has sent, and in which instruction it can wait
(`Node.adds`).
-/

namespace NodeGrid

variable {n : ℕ}

/-- The program that writes the sums of what comes in at two ports. -/
def Program.adding (first second target : Port) : Program :=
  [.move (.register (.port first)) .acc, .unary .add (.register (.port second)),
    .move (.register .acc) (.port target)]

/-- The port events of adding. -/
def addingEvents (first second target : Port) (pairs : List (Int64 × Int64)) : List PortEvent :=
  pairs.flatMap fun pair =>
    [.read first pair.1, .read second pair.2, .write target (pair.1 + pair.2)]

theorem addingEvents_concat (first second target : Port) (pairs : List (Int64 × Int64))
    (pair : Int64 × Int64) : addingEvents first second target (pairs ++ [pair]) =
      addingEvents first second target pairs ++
        [.read first pair.1, .read second pair.2, .write target (pair.1 + pair.2)] := by
  simp [addingEvents]

/-! ## The interpreter -/

/-- The interpreter has executed so many instructions of the program. -/
inductive Interpreter.IsAdding (first second target : Port) (executed : ℕ)
    (interpreter : Interpreter) : Prop where
  | between (pairs : List (Int64 × Int64)) (hexecuted : executed = 3 * pairs.length)
      (hip : interpreter.ip = 0)
      (hevents : interpreter.events = addingEvents first second target pairs)
  /-- It has read the first value. -/
  | holding (pairs : List (Int64 × Int64)) (value : Int64)
      (hexecuted : executed = 3 * pairs.length + 1) (hip : interpreter.ip = 1)
      (hacc : interpreter.acc = value)
      (hevents : interpreter.events =
        addingEvents first second target pairs ++ [.read first value])
  /-- It has read and added the second one. -/
  | summed (pairs : List (Int64 × Int64)) (value other : Int64)
      (hexecuted : executed = 3 * pairs.length + 2) (hip : interpreter.ip = 2)
      (hacc : interpreter.acc = value + other)
      (hevents : interpreter.events =
        addingEvents first second target pairs ++ [.read first value, .read second other])

/-- The operation that a node with that program can wait with after a number of instructions. -/
inductive AddingWaits (first second target : Port) (executed : ℕ) :
    Option PortOperation → Prop where
  | idle : AddingWaits first second target executed none
  | first (hexecuted : executed % 3 = 0) :
      AddingWaits first second target executed (some (.read first))
  | second (hexecuted : executed % 3 = 1) :
      AddingWaits first second target executed (some (.read second))
  | target (value : Int64) (hexecuted : executed % 3 = 2) :
      AddingWaits first second target executed (some (.write target value))

namespace Interpreter

variable {first second target : Port} {executed : ℕ} {interpreter next : Interpreter}

theorem IsAdding.step (hadding : interpreter.IsAdding first second target executed)
    (hstep : interpreter.step (.adding first second target) = some next) :
    next.IsAdding first second target (executed + 1) := by
  cases hadding with
  | between pairs hexecuted hip hevents =>
      -- the three instructions of the program, one after the other
      rw [step_of_getElem? (by rw [hip]; rfl)] at hstep
      obtain ⟨⟨value, fetched⟩, hfetch, hnext⟩ := Option.bind_eq_some_iff.mp hstep
      obtain ⟨rest, -, rfl⟩ := exists_of_fetch hfetch
      cases hnext
      exact .holding pairs value (congrArg Nat.succ hexecuted)
        (congrArg (fun ip => (ip + 1) % 3) hip) rfl (congrArg (· ++ _) hevents)
  | holding pairs value hexecuted hip hacc hevents =>
      rw [step_of_getElem? (by rw [hip]; rfl)] at hstep
      obtain ⟨⟨other, fetched⟩, hfetch, hnext⟩ := Option.bind_eq_some_iff.mp hstep
      obtain ⟨rest, -, rfl⟩ := exists_of_fetch hfetch
      cases hnext
      refine .summed pairs value other (congrArg Nat.succ hexecuted)
        (congrArg (fun ip => (ip + 1) % 3) hip) ?_ ?_
      · exact (wrap_add _ _).trans (congrArg (· + other) hacc)
      · exact (congrArg (· ++ [.read second other]) hevents).trans (List.append_assoc _ _ _)
  | summed pairs value other hexecuted hip hacc hevents =>
      rw [step_of_getElem? (by rw [hip]; rfl)] at hstep
      cases hstep
      refine .between (pairs ++ [(value, other)]) ?_ (congrArg (fun ip => (ip + 1) % 3) hip) ?_
      · rw [hexecuted, List.length_append, List.length_singleton, Nat.mul_add]
      · change interpreter.events ++ [.write target interpreter.acc] = _
        rw [hevents, hacc, addingEvents_concat, List.append_assoc]
        rfl

theorem IsAdding.ip_eq (hadding : interpreter.IsAdding first second target executed) :
    interpreter.ip = executed % 3 := by
  cases hadding with
  | between pairs hexecuted hip => omega
  | holding pairs value hexecuted hip => omega
  | summed pairs value other hexecuted hip => omega

/-- The first two instructions read a port. -/
theorem IsAdding.waits_to_read (hadding : interpreter.IsAdding first second target executed)
    {instruction : Instruction} {port : Port}
    (hcurrent : (Program.adding first second target)[interpreter.ip]? = some instruction)
    (hport : instruction.readPort? = some port) :
    AddingWaits first second target executed (some (.read port)) := by
  have hip := hadding.ip_eq
  cases hadding with
  | between pairs hexecuted hstart =>
      rw [hstart] at hcurrent hip
      cases hcurrent
      cases hport
      exact .first hip.symm
  | holding pairs value hexecuted hnext =>
      rw [hnext] at hcurrent hip
      cases hcurrent
      cases hport
      exact .second hip.symm
  | summed pairs value other hexecuted hlast =>
      -- the third instruction reads the accumulator
      rw [hlast] at hcurrent
      cases hcurrent
      cases hport

/-- The last instruction writes the sum to a port. -/
theorem IsAdding.waits_to_write (hadding : interpreter.IsAdding first second target executed)
    {source : Operand} {port : Port} {value : Int64}
    (hcurrent : (Program.adding first second target)[interpreter.ip]? =
      some (.move source (.port port)))
    (hfetch : interpreter.fetch source = some (value, next)) :
    next = interpreter ∧ AddingWaits first second target executed (some (.write port value)) := by
  have hip := hadding.ip_eq
  cases hadding with
  | between pairs hexecuted hstart =>
      rw [hstart] at hcurrent
      cases hcurrent
  | holding pairs value hexecuted hnext =>
      rw [hnext] at hcurrent
      cases hcurrent
  | summed pairs value other hexecuted hlast =>
      -- only the third instruction writes to a port
      rw [hlast] at hcurrent hip
      cases hcurrent
      cases hfetch
      exact ⟨rfl, .target _ hip.symm⟩

theorem isAdding_of_run {inbox : List Int64}
    (hrun : (start inbox).run (.adding first second target) executed = some interpreter) :
    interpreter.IsAdding first second target executed := by
  induction executed generalizing interpreter with
  | zero =>
      cases hrun
      exact .between [] rfl rfl rfl
  | succ executed ih =>
      obtain ⟨last, hlast, hstep⟩ := Option.bind_eq_some_iff.mp hrun
      exact (ih hlast).step hstep

end Interpreter

/-! ## Nodes -/

/-- What a node with that program has received and sent after a number of instructions. -/
structure Adds (executed : ℕ) (firsts seconds sums : List Int64) : Prop where
  length_firsts : firsts.length = (executed + 2) / 3
  length_seconds : seconds.length = (executed + 1) / 3
  sums_eq : sums = (List.zipWith (· + ·) firsts seconds).take (executed / 3)

theorem take_zipWith_pairs (pairs : List (Int64 × Int64)) (more others : List Int64) :
    (List.zipWith (· + ·) (pairs.map Prod.fst ++ more) (pairs.map Prod.snd ++ others)).take
      pairs.length = pairs.map fun pair => pair.1 + pair.2 := by
  induction pairs with
  | nil => rfl
  | cons pair pairs ih => exact congrArg (_ :: ·) ih

theorem adds_of_pairs {executed : ℕ} (pairs : List (Int64 × Int64)) {more others : List Int64}
    (hmore : pairs.length + more.length = (executed + 2) / 3)
    (hothers : pairs.length + others.length = (executed + 1) / 3)
    (hpairs : executed / 3 = pairs.length) :
    Adds executed (pairs.map Prod.fst ++ more) (pairs.map Prod.snd ++ others)
      (pairs.map fun pair => pair.1 + pair.2) where
  length_firsts := by rw [List.length_append, List.length_map, hmore]
  length_seconds := by rw [List.length_append, List.length_map, hothers]
  sums_eq := by rw [hpairs, take_zipWith_pairs]

theorem Adds.length_sums {executed : ℕ} {firsts seconds sums : List Int64}
    (hadds : Adds executed firsts seconds sums) : sums.length = executed / 3 := by
  rw [hadds.sums_eq, List.length_take, List.length_zipWith, hadds.length_firsts,
    hadds.length_seconds]
  omega

/-- The sums are those of all values of which the node has received the first ones. -/
theorem Adds.sums_eq_take {executed : ℕ} {firsts seconds sums values others : List Int64}
    (hadds : Adds executed firsts seconds sums) (hfirsts : firsts <+: values)
    (hseconds : seconds <+: others) :
    sums = (List.zipWith (· + ·) values others).take (executed / 3) := by
  have hfirstsTake : firsts.take (executed / 3) = values.take (executed / 3) := by
    have hle : executed / 3 ≤ firsts.length := by
      rw [hadds.length_firsts]
      omega
    rw [List.prefix_iff_eq_take.mp hfirsts, List.take_take, min_eq_left hle]
  have hsecondsTake : seconds.take (executed / 3) = others.take (executed / 3) := by
    have hle : executed / 3 ≤ seconds.length := by
      rw [hadds.length_seconds]
      omega
    rw [List.prefix_iff_eq_take.mp hseconds, List.take_take, min_eq_left hle]
  rw [hadds.sums_eq, List.take_zipWith, List.take_zipWith, hfirstsTake, hsecondsTake]

namespace Node

variable {node : Node n} {comms : List (Comm n)} {operation : Option PortOperation}
  {a b c : Fin n} {first second target : Port}

theorem reads_adding_iff (hprogram : node.program = .adding first second target) {k : Fin n} :
    node.reads k ↔ node.ports first = some k ∨ node.ports second = some k := by
  simp [reads, hprogram, Program.adding, Instruction.readPort?, Instruction.source?, Operand.port?,
    Register.port?]

theorem writes_adding_iff (hprogram : node.program = .adding first second target) {k : Fin n} :
    node.writes k ↔ node.ports target = some k := by
  simp [writes, hprogram, Program.adding, Instruction.writtenPort?, Register.port?]

section Streams

variable (hfirst : node.ports first = some a) (hsecond : node.ports second = some b)
  (htarget : node.ports target = some c)

include hfirst hsecond htarget

theorem firsts_addingEvents (hne : b ≠ a) (pairs : List (Int64 × Int64)) :
    ((addingEvents first second target pairs).filterMap (PortEvent.comm? node.ports)).filterMap
      (Comm.received? a) = pairs.map Prod.fst := by
  induction pairs with
  | nil => rfl
  | cons pair pairs ih =>
      simpa [addingEvents, PortEvent.comm?, hfirst, hsecond, htarget, Comm.received?, hne,
        List.filterMap_cons] using ih

theorem seconds_addingEvents (hne : a ≠ b) (pairs : List (Int64 × Int64)) :
    ((addingEvents first second target pairs).filterMap (PortEvent.comm? node.ports)).filterMap
      (Comm.received? b) = pairs.map Prod.snd := by
  induction pairs with
  | nil => rfl
  | cons pair pairs ih =>
      simpa [addingEvents, PortEvent.comm?, hfirst, hsecond, htarget, Comm.received?, hne,
        List.filterMap_cons] using ih

theorem sums_addingEvents (pairs : List (Int64 × Int64)) :
    ((addingEvents first second target pairs).filterMap (PortEvent.comm? node.ports)).filterMap
      (Comm.sent? c) = pairs.map fun pair => pair.1 + pair.2 := by
  induction pairs with
  | nil => rfl
  | cons pair pairs ih =>
      simpa [addingEvents, PortEvent.comm?, hfirst, hsecond, htarget, Comm.sent?,
        List.filterMap_cons] using ih

theorem adds_of_isAdding {interpreter : Interpreter} {executed : ℕ}
    (hadding : interpreter.IsAdding first second target executed) (hne : a ≠ b)
    (hcomms : comms = interpreter.events.filterMap (PortEvent.comm? node.ports)) :
    Adds executed (comms.filterMap (Comm.received? a)) (comms.filterMap (Comm.received? b))
      (comms.filterMap (Comm.sent? c)) := by
  have hfirsts := firsts_addingEvents hfirst hsecond htarget hne.symm
  have hseconds := seconds_addingEvents hfirst hsecond htarget hne
  have hsums := sums_addingEvents hfirst hsecond htarget
  cases hadding with
  | between pairs hexecuted hip hevents =>
      have hadds : Adds executed (pairs.map Prod.fst ++ []) (pairs.map Prod.snd ++ []) _ :=
        adds_of_pairs pairs (by simp; omega) (by simp; omega) (by omega)
      rw [hcomms, hevents, hfirsts, hseconds, hsums]
      simpa using hadds
  | holding pairs value hexecuted hip hacc hevents =>
      -- a value of the first port is ahead of its partner
      have hadds : Adds executed (pairs.map Prod.fst ++ [value]) (pairs.map Prod.snd ++ []) _ :=
        adds_of_pairs pairs (by simp; omega) (by simp; omega) (by omega)
      rw [hcomms, hevents]
      simp only [List.filterMap_append, hfirsts, hseconds, hsums]
      simpa [PortEvent.comm?, hfirst, Comm.received?, Comm.sent?, hne, List.filterMap_cons]
        using hadds
  | summed pairs value other hexecuted hip hacc hevents =>
      have hadds : Adds executed (pairs.map Prod.fst ++ [value]) (pairs.map Prod.snd ++ [other]) _ :=
        adds_of_pairs pairs (by simp; omega) (by simp; omega) (by omega)
      rw [hcomms, hevents]
      simp only [List.filterMap_append, hfirsts, hseconds, hsums]
      simpa [PortEvent.comm?, hfirst, hsecond, Comm.received?, Comm.sent?, hne, hne.symm,
        List.filterMap_cons] using hadds

/-- What a node with that program does is told by how many instructions it has completed. -/
theorem adds (hinterprets : node.Interprets comms operation)
    (hprogram : node.program = .adding first second target) (hne : a ≠ b) :
    Adds node.executed (comms.filterMap (Comm.received? a)) (comms.filterMap (Comm.received? b))
        (comms.filterMap (Comm.sent? c)) ∧
      AddingWaits first second target node.executed operation := by
  cases hinterprets with
  | settled _ _ hrun _ _ hrecords =>
      rw [interpreter?, hprogram] at hrun
      have hadding := Interpreter.isAdding_of_run hrun
      exact ⟨adds_of_isAdding hfirst hsecond htarget hadding hne hrecords.comms_eq, .idle⟩
  | reading hrun _ _ _ hrecords hcurrent hport =>
      rw [interpreter?, hprogram] at hrun
      have hadding := Interpreter.isAdding_of_run hrun
      exact ⟨adds_of_isAdding hfirst hsecond htarget hadding hne hrecords.comms_eq,
        hadding.waits_to_read (hprogram ▸ hcurrent) hport⟩
  | writing hrun _ _ hcurrent hfetch _ hrecords =>
      -- the sum that waits to be sent is not recorded yet, as the fetch has changed nothing
      rw [interpreter?, hprogram] at hrun
      have hadding := Interpreter.isAdding_of_run hrun
      obtain ⟨rfl, hwaits⟩ := hadding.waits_to_write (hprogram ▸ hcurrent) hfetch
      exact ⟨adds_of_isAdding hfirst hsecond htarget hadding hne hrecords.comms_eq, hwaits⟩

end Streams

end Node

end NodeGrid

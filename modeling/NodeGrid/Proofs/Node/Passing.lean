import NodeGrid.Proofs.Node.Interpretation

/-!
# Nodes that pass values on

The program of one move between two ports passes on what comes in (`Node.passes`): a node
with it has sent the values that it has received, in their order, one for each instruction
that it has completed.  While it waits to write, it has received one value more.
-/

namespace NodeGrid

variable {n : ℕ}

/-- The program that moves a value from one port to another. -/
def Program.passing (source target : Port) : Program :=
  [.move (.register (.port source)) (.port target)]

/-- The port events of passing values on. -/
def passingEvents (source target : Port) (values : List Int64) : List PortEvent :=
  values.flatMap fun value => [.read source value, .write target value]

theorem passingEvents_concat (source target : Port) (values : List Int64) (value : Int64) :
    passingEvents source target (values ++ [value]) =
      passingEvents source target values ++ [.read source value, .write target value] := by
  simp [passingEvents]

variable {source target : Port}

/-- An instruction of the program passes a value on. -/
theorem Interpreter.step_passing {interpreter next : Interpreter} (hip : interpreter.ip = 0)
    (hstep : interpreter.step (.passing source target) = some next) :
    next.ip = 0 ∧ ∃ value,
      next.events = interpreter.events ++ [.read source value, .write target value] := by
  rw [step_of_getElem? (by rw [hip]; rfl)] at hstep
  obtain ⟨⟨value, fetched⟩, hfetch, hnext⟩ := Option.bind_eq_some_iff.mp hstep
  obtain ⟨rest, -, rfl⟩ := exists_of_fetch hfetch
  cases hnext
  exact ⟨Nat.mod_one _, value, by simp [store, goto]⟩

theorem Interpreter.run_passing {inbox : List Int64} {executed : ℕ} {interpreter : Interpreter}
    (hrun : (start inbox).run (.passing source target) executed = some interpreter) :
    interpreter.ip = 0 ∧ ∃ values, values.length = executed ∧
      interpreter.events = passingEvents source target values := by
  induction executed generalizing interpreter with
  | zero =>
      cases hrun
      exact ⟨rfl, [], rfl, rfl⟩
  | succ executed ih =>
      obtain ⟨last, hlast, hstep⟩ := Option.bind_eq_some_iff.mp hrun
      obtain ⟨hip, values, hlength, hevents⟩ := ih hlast
      obtain ⟨hnext, value, hnextEvents⟩ := step_passing hip hstep
      refine ⟨hnext, values ++ [value], ?_, ?_⟩
      · rw [List.length_append, hlength]
        rfl
      · rw [hnextEvents, hevents, passingEvents_concat]

/-- What a node with that program has received and sent after a number of instructions, and
which operation it waits with. -/
inductive Passes (source target : Port) (executed : ℕ) :
    List Int64 → List Int64 → Option PortOperation → Prop where
  | idle {values : List Int64} (hlength : values.length = executed) :
      Passes source target executed values values none
  | reading {values : List Int64} (hlength : values.length = executed) :
      Passes source target executed values values (some (.read source))
  | writing {values : List Int64} (value : Int64) (hlength : values.length = executed) :
      Passes source target executed (values ++ [value]) values (some (.write target value))

theorem Passes.sent_prefix_received {executed : ℕ} {received sent : List Int64}
    {operation : Option PortOperation}
    (hpasses : Passes source target executed received sent operation) : sent <+: received := by
  cases hpasses with
  | idle => exact List.prefix_rfl
  | reading => exact List.prefix_rfl
  | writing value => exact List.prefix_append _ [value]

theorem Passes.length_sent {executed : ℕ} {received sent : List Int64}
    {operation : Option PortOperation}
    (hpasses : Passes source target executed received sent operation) : sent.length = executed := by
  cases hpasses with
  | idle hlength => exact hlength
  | reading hlength => exact hlength
  | writing value hlength => exact hlength

namespace Node

variable {node : Node n} {comms : List (Comm n)} {operation : Option PortOperation} {a b : Fin n}

theorem reads_passing_iff (hprogram : node.program = .passing source target) {k : Fin n} :
    node.reads k ↔ node.ports source = some k := by
  simp [reads, hprogram, Program.passing, Instruction.readPort?, Instruction.source?, Operand.port?,
    Register.port?]

theorem writes_passing_iff (hprogram : node.program = .passing source target) {k : Fin n} :
    node.writes k ↔ node.ports target = some k := by
  simp [writes, hprogram, Program.passing, Instruction.writtenPort?, Register.port?]

theorem received_passingEvents (hsource : node.ports source = some a)
    (htarget : node.ports target = some b) (values : List Int64) :
    ((passingEvents source target values).filterMap (PortEvent.comm? node.ports)).filterMap
      (Comm.received? a) = values := by
  induction values with
  | nil => rfl
  | cons value values ih =>
      simpa [passingEvents, PortEvent.comm?, hsource, htarget, Comm.received?, List.filterMap_cons]
        using ih

theorem sent_passingEvents (hsource : node.ports source = some a)
    (htarget : node.ports target = some b) (values : List Int64) :
    ((passingEvents source target values).filterMap (PortEvent.comm? node.ports)).filterMap
      (Comm.sent? b) = values := by
  induction values with
  | nil => rfl
  | cons value values ih =>
      simpa [passingEvents, PortEvent.comm?, hsource, htarget, Comm.sent?, List.filterMap_cons]
        using ih

/-- A node passes on what it receives. -/
theorem passes (hinterprets : node.Interprets comms operation)
    (hprogram : node.program = .passing source target) (hsource : node.ports source = some a)
    (htarget : node.ports target = some b) :
    Passes source target node.executed (comms.filterMap (Comm.received? a))
      (comms.filterMap (Comm.sent? b)) operation := by
  have hreceived := received_passingEvents hsource htarget
  have hsent := sent_passingEvents hsource htarget
  cases hinterprets with
  | settled _ _ hrun _ _ hrecords =>
      rw [interpreter?, hprogram] at hrun
      obtain ⟨-, values, hlength, hevents⟩ := Interpreter.run_passing hrun
      rw [hrecords.comms_eq, hevents, hreceived, hsent]
      exact .idle hlength
  | reading hrun _ _ _ hrecords hcurrent hport =>
      rw [interpreter?, hprogram] at hrun
      obtain ⟨hip, values, hlength, hevents⟩ := Interpreter.run_passing hrun
      rw [hprogram, hip] at hcurrent
      cases hcurrent
      cases hport
      rw [hrecords.comms_eq, hevents, hreceived, hsent]
      exact .reading hlength
  | @writing interpreter fetched _ _ value hrun _ _ hcurrent hfetch _ hrecords =>
      rw [interpreter?, hprogram] at hrun
      obtain ⟨hip, values, hlength, hevents⟩ := Interpreter.run_passing hrun
      rw [hprogram, hip] at hcurrent
      cases hcurrent
      obtain ⟨rest, -, rfl⟩ := Interpreter.exists_of_fetch hfetch
      -- the value has come in, and is recorded as sent only when the write is over
      have hwriting : Passes source target node.executed (values ++ [value]) values
          (some (.write target value)) := .writing value hlength
      rw [hrecords.comms_eq, hevents]
      simp only [List.filterMap_append, hreceived, hsent]
      simpa [PortEvent.comm?, hsource, Comm.received?, Comm.sent?, List.filterMap_cons]
        using hwriting

end Node

end NodeGrid

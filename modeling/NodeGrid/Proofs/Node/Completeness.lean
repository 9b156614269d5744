import NodeGrid.Proofs.Node.Interpretation

/-!
# Nodes can do all that the interpreter does

The converse of `Demand.Leads.interprets`.  If the ports that a program uses are
connected, then a node by itself can follow the interpreter of the program through any
number of instructions: it gets to the registers of the interpreter with the port events
of the interpreter as its communications (`Node.Holds.attains_run`).

An instruction is followed backwards through its stages: from where the node stops with
its source (`Node.StopsAt.attains`), from the value of the source on
(`Node.Tracks.attains_pauseAfterRead`), from the read of the source on
(`Node.Tracks.attains_demandRead`), and as a whole (`Node.Holds.attains`).
-/

namespace NodeGrid

variable {n : ℕ}

section Records

variable {ports : Port → Option (Fin n)} {events more : List PortEvent}
  {comms later : List (Comm n)}

theorem Records.nil (ports : Port → Option (Fin n)) : Records ports [] [] := rfl

theorem Records.append (hrecords : Records ports events comms) (hmore : Records ports more later) :
    Records ports (events ++ more) (comms ++ later) := by
  unfold Records at *
  rw [List.map_append, List.map_append, hrecords, hmore]

end Records

namespace Interpreter

variable {interpreter fetched next : Interpreter}

/-- What is executed has got the value of its source. -/
theorem exists_fetch {instruction : Instruction} {source : Operand} {length : ℕ}
    (hsource : instruction.source? = some source)
    (hexecute : interpreter.execute length instruction = some next) :
    ∃ value fetched, interpreter.fetch source = some (value, fetched) := by
  cases instruction with
  | plain operation => cases hsource
  | jump condition target => cases hsource
  | unary operation operand =>
      cases hsource
      obtain ⟨⟨value, fetched⟩, hfetch, -⟩ := Option.bind_eq_some_iff.mp hexecute
      exact ⟨value, fetched, hfetch⟩
  | move operand target =>
      cases hsource
      obtain ⟨⟨value, fetched⟩, hfetch, -⟩ := Option.bind_eq_some_iff.mp hexecute
      exact ⟨value, fetched, hfetch⟩

end Interpreter

/-- From the demand, a node by itself gets to the end of the step with the registers of
the interpreter, and with these port events on its way. -/
def Demand.Attains (demand : Demand n) (events : List PortEvent) (next : Interpreter) : Prop :=
  ∃ comms after, demand.Leads comms (.paused (.settled after)) ∧ after.Holds next ∧
    Records demand.node.ports events comms

namespace Node

variable {node : Node n} {allowed : Fin n → Prop} {instruction : Instruction} {source : Operand}
  {interpreter fetched next : Interpreter} {value : Int64}

theorem attains_finish (hprogram : node.program ≠ []) {acc bak : Int64} {target : Option ℕ}
    (hacc : acc = next.acc) (hbak : bak = next.bak)
    (hip : target.getD (node.ip + 1) % node.program.length = next.ip) :
    (Demand.paused (.settled (finish { node with acc, bak } target))).Attains [] next :=
  ⟨[], _, .refl _, ⟨hacc, hbak, (nextIp_finish hprogram target).trans hip⟩, .nil _⟩

/-- From where it stops, a node gets to the end of the instruction. -/
theorem StopsAt.attains {pause : Pause n}
    (hstops : node.StopsAt instruction interpreter fetched next pause)
    (hwired : node.IsWired allowed) (hcurrent : node.program[node.ip]? = some instruction) :
    ∃ events, next.events = fetched.events ++ events ∧
      (Demand.paused pause).Attains events next := by
  have hmem := List.mem_of_getElem? hcurrent
  have hprogram : node.program ≠ [] := List.ne_nil_of_mem hmem
  cases hstops with
  | settled hacc hbak hip hinbox hevents =>
      exact ⟨[], hevents.trans (List.append_nil _).symm, attains_finish hprogram hacc hbak hip⟩
  | @writing source port value htracks hinstruction hfetch hnext =>
      subst hinstruction hnext
      obtain ⟨k, hport, -⟩ := hwired _ hmem port (Instruction.mem_ports_iff.mpr (Or.inr rfl))
      refine ⟨[.write port value], rfl, [.sent k value], node.finish none, .sent hport (.refl _),
        ⟨htracks.acc_eq, htracks.bak_eq, (nextIp_finish hprogram none).trans ?_⟩, ?_⟩
      · rw [htracks.ip_eq]
        rfl
      · exact (Records.nil node.ports).write hport

/-- A node that goes on with the value of its source. -/
theorem Tracks.attains_pauseAfterRead (htracks : node.Tracks interpreter)
    (hwired : node.IsWired allowed) (hcurrent : node.program[node.ip]? = some instruction)
    (hsource : instruction.source? = some source)
    (hfetch : interpreter.fetch source = some (value, fetched))
    (hexecute : interpreter.execute node.program.length instruction = some next) :
    ∃ pause events, node.pauseAfterRead value = .ok pause ∧
      next.events = fetched.events ++ events ∧ (Demand.paused pause).Attains events next := by
  obtain ⟨pause, stopped, hpause, hstopped, hstops⟩ :=
    exists_stopsAt hcurrent hsource htracks hfetch
  cases hstopped.symm.trans hexecute
  obtain ⟨events, hattains⟩ := hstops.attains hwired hcurrent
  exact ⟨pause, events, hpause, hattains⟩

/-- A node that reads its source. -/
theorem Tracks.attains_demandRead (htracks : node.Tracks interpreter)
    (hwired : node.IsWired allowed) (hcurrent : node.program[node.ip]? = some instruction)
    (hsource : instruction.source? = some source)
    (hexecute : interpreter.execute node.program.length instruction = some next) :
    ∃ demand events, node.demandRead source = .ok demand ∧
      next.events = interpreter.events ++ events ∧ demand.Attains events next := by
  obtain ⟨port, rfl⟩ | ⟨value, hfetch, hread⟩ := demandRead_cases source htracks
  · -- the port is wired, and the value is one that the interpreter has taken from its supply
    have hreads : instruction.readPort? = some port := by
      rw [Instruction.readPort?, hsource]
      rfl
    obtain ⟨k, hport, -⟩ := hwired _ (List.mem_of_getElem? hcurrent) port
      (Instruction.mem_ports_iff.mpr (Or.inl hreads))
    obtain ⟨value, fetched, hfetch⟩ := Interpreter.exists_fetch hsource hexecute
    obtain ⟨rest, -, hfetched⟩ := Interpreter.exists_of_fetch hfetch
    obtain ⟨pause, events, hpause, hevents, comms, after, hleads, hholds, hrecords⟩ :=
      htracks.attains_pauseAfterRead hwired hcurrent hsource hfetch hexecute
    rw [show (Demand.paused pause).node.ports = node.ports from
      (continues_pauseAfterRead hpause).ports_eq] at hrecords
    refine ⟨_, .read port value :: events, rfl, ?_, .received k value :: comms, after,
      .received hport hpause hleads, hholds, ?_⟩
    · rw [hevents, hfetched, List.append_assoc, List.singleton_append]
    · exact ((Records.nil node.ports).read hport).append hrecords
  · obtain ⟨pause, events, hpause, hattains⟩ :=
      htracks.attains_pauseAfterRead hwired hcurrent hsource hfetch hexecute
    exact ⟨.paused pause, events, hread.trans (bind_eq_ok.mpr ⟨pause, hpause, rfl⟩), hattains⟩

/-- A node at an instruction that it has begun. -/
theorem Tracks.attains_demandExecute (htracks : node.Tracks interpreter)
    (hwired : node.IsWired allowed) (hcurrent : node.program[node.ip]? = some instruction)
    (hexecute : interpreter.execute node.program.length instruction = some next) :
    ∃ demand events, node.demandExecute = .ok demand ∧
      next.events = interpreter.events ++ events ∧ demand.Attains events next := by
  cases hsource : instruction.source? with
  | none =>
      obtain ⟨pause, stopped, hpaused, hstopped, hstops⟩ :=
        exists_stopsAt_of_source_eq_none hcurrent hsource htracks
      cases hstopped.symm.trans hexecute
      obtain ⟨events, hattains⟩ := hstops.attains hwired hcurrent
      exact ⟨.paused pause, events, hpaused, hattains⟩
  | some source =>
      rw [demandExecute_eq_demandRead hcurrent hsource]
      exact htracks.attains_demandRead hwired hcurrent hsource hexecute

/-- A node by itself can follow an instruction of the interpreter. -/
theorem Holds.attains (hholds : node.Holds interpreter) (hwired : node.IsWired allowed)
    (hstep : interpreter.step node.program = some next) :
    ∃ events, next.events = interpreter.events ++ events ∧
      (Demand.paused (.settled node)).Attains events next := by
  obtain ⟨instruction, hfound, hexecute⟩ := Option.bind_eq_some_iff.mp hstep
  have hprogram : node.program ≠ [] := List.ne_nil_of_mem (List.mem_of_getElem? hfound)
  have hdemand := node.demand_eq
  rw [if_neg (by simpa using hprogram)] at hdemand
  have hbegun : Tracks { node.stall with ip := node.nextIp } interpreter :=
    ⟨hholds.acc_eq, hholds.bak_eq, hholds.nextIp_eq⟩
  obtain ⟨demand, events, hstarted, hevents, comms, after, hleads, hnext, hrecords⟩ :=
    hbegun.attains_demandExecute hwired (hholds.nextIp_eq ▸ hfound) hexecute
  rw [← hdemand] at hstarted
  refine ⟨events, hevents, comms, after, .begin hstarted hleads, hnext, ?_⟩
  rwa [(continues_demand hstarted).ports_eq] at hrecords

/-- A node by itself can follow the interpreter of its program. -/
theorem Holds.attains_run (hholds : node.Holds interpreter) (hwired : node.IsWired allowed)
    {steps : ℕ} (hrun : interpreter.run node.program steps = some next) :
    ∃ events, next.events = interpreter.events ++ events ∧
      (Demand.paused (.settled node)).Attains events next := by
  induction steps generalizing next with
  | zero =>
      cases hrun
      exact ⟨[], (List.append_nil _).symm, [], node, .refl _, hholds, .nil _⟩
  | succ steps ih =>
      obtain ⟨last, hlast, hstep⟩ := Option.bind_eq_some_iff.mp hrun
      obtain ⟨events, hevents, comms, between, hleads, hbetween, hrecords⟩ := ih hlast
      -- the node further on has the same ports and the same program
      have hcontinues : node.Continues between := hleads.continues
      have hsame := hcontinues.program_eq
      have hbetweenWired : between.IsWired allowed := by
        intro instruction hmem port hport
        rw [hcontinues.ports_eq]
        exact hwired instruction (hsame ▸ hmem) port hport
      rw [← hsame] at hstep
      obtain ⟨more, hmore, later, after, hleadsLater, hnext, hrecordsLater⟩ :=
        hbetween.attains hbetweenWired hstep
      refine ⟨events ++ more, ?_, comms ++ later, after, hleads.trans hleadsLater, hnext, ?_⟩
      · rw [hmore, hevents, List.append_assoc]
      · rw [show (Demand.paused (.settled between)).node.ports = node.ports from
          hcontinues.ports_eq] at hrecordsLater
        exact hrecords.append hrecordsLater

end Node

end NodeGrid

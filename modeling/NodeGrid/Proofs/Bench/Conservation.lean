import NodeGrid.Proofs.Bench.Confluence
import NodeGrid.Proofs.Network.Ageing
import NodeGrid.Proofs.Participant.Receipts

/-!
# No value is lost

Whatever has been done with a bench, all values that it has worked with can be
accounted for (`Bench.Conserved`).  What was put into a channel was taken out of it in
the same order, or is still in its buffer; what was taken out was read by an
instruction, dropped by a node that had abandoned its read, or collected by a sink; and
what a source was given it has delivered, is sending, or has still to send.  The results
of a sink only ever grow at their end (`conserved_of_performAll`).

Programs may be replaced in the middle of an operation, which decides whether a node
reads a value or drops it.  So the receipts are drawn up operation by operation
(`Bench.Audited`): in an operation that replaces a program nothing is taken, and in every
other one all members keep their programs.  For sources and sinks a new program means
nothing, and what they do can be followed through all operations at once
(`Path.follows`).
-/

namespace NodeGrid

variable {n : ℕ}

/-! ## One member of a network -/

namespace Network

variable {m : ℕ} {network next : Network m n} {users : Fin n → Finset (Fin m)}
  {loads : Fin m → Prop} {first second : Stage m} {log : Log (Fin m) n} {task : Fin m}

/-- There are receipts for what a member takes that gets no new program. -/
theorem Path.exists_receipts (hpath : Path loads first network log second next)
    (hsound : network.Sound users)
    (hreach : ∀ task, loads task → ∀ k, (network.member task).Reaches k → task ∈ users k)
    (hload : ¬ loads task) :
    ∃ receipts, (network.member task).Audited task (deedsOf task log) receipts
      (next.member task) := by
  have hkept : ∀ {deeds more : List (Deed n)} {member after : Participant n},
      (∃ receipts, (network.member task).Audited task deeds receipts member) →
        member.Moves task more after →
          ∃ receipts, (network.member task).Audited task (deeds ++ more) receipts after := by
    rintro deeds more member after ⟨receipts, haudited⟩ hmoves
    exact haudited.moves hmoves
  exact hpath.keeps_member @hkept hsound hreach hload ⟨[], .start⟩

/-- A source or a sink does what it would do by itself, with whatever programs. -/
theorem Path.follows (hpath : Path loads first network log second next)
    (hsound : network.Sound users)
    (hreach : ∀ task, loads task → ∀ k, (network.member task).Reaches k → task ∈ users k)
    (hend : (network.member task).node? = none) :
    (network.member task).Follows (deedsOf task log) (next.member task) :=
  hpath.keeps_loaded_member Participant.Follows.moves
    (fun _ _ _ source hfollows => hfollows.load hend source) hsound hreach
    (Participant.follows_of_node?_eq_none hend)

end Network

/-! ## Ports and members -/

namespace Wiring

variable (wiring : Wiring n)

/-- The task of a node. -/
def nodeTask (index : Fin wiring.nodes.length) : Fin wiring.size :=
  Fin.castAdd wiring.outputs.length (Fin.castAdd wiring.inputs.length index)

/-- The number of the source that feeds an input port. -/
def sourceTask (port : Fin wiring.inputs.length) : Fin wiring.size :=
  Fin.castAdd wiring.outputs.length (Fin.natAdd wiring.nodes.length port)

/-- The number of the sink that empties an output port. -/
def sinkTask (port : Fin wiring.outputs.length) : Fin wiring.size :=
  Fin.natAdd (wiring.nodes.length + wiring.inputs.length) port

end Wiring

namespace Bench

open Network (Path)

variable {wiring : Wiring n} {suite : Suite} {discipline : Discipline}
  {operations : List (Operation wiring.size)} {bench : Bench wiring.size n}

theorem member_nodeTask (index : Fin wiring.nodes.length) :
    (ofWiring wiring suite discipline).network.member (wiring.nodeTask index) =
      .node (wiring.nodes.get index) := by
  have hmember := member_ofWiring wiring suite discipline (wiring.nodeTask index)
  simpa [Wiring.participants, Wiring.nodeTask, List.getElem?_append] using hmember.symm

theorem member_sourceTask (port : Fin wiring.inputs.length) :
    (ofWiring wiring suite discipline).network.member (wiring.sourceTask port) =
      .source (.ofValues (suite.inputs.values port) (wiring.inputs.get port)) := by
  have hmember := member_ofWiring wiring suite discipline (wiring.sourceTask port)
  simpa [Wiring.participants, Wiring.sourceTask, List.getElem?_append] using hmember.symm

theorem member_sinkTask (port : Fin wiring.outputs.length) :
    (ofWiring wiring suite discipline).network.member (wiring.sinkTask port) =
      .sink (.ofChannel (wiring.outputs.get port)) := by
  have hmember := member_ofWiring wiring suite discipline (wiring.sinkTask port)
  simpa [Wiring.participants, Wiring.sinkTask, Nat.add_assoc] using hmember.symm

/-- Sources and sinks are listed by port. -/
theorem endpoints_eq {node : Fin wiring.nodes.length → Node n}
    {source : Fin wiring.inputs.length → Source n} {sink : Fin wiring.outputs.length → Sink n}
    (hnodes : ∀ index, bench.network.member (wiring.nodeTask index) = .node (node index))
    (hsources : ∀ port, bench.network.member (wiring.sourceTask port) = .source (source port))
    (hsinks : ∀ port, bench.network.member (wiring.sinkTask port) = .sink (sink port)) :
    bench.sources = List.ofFn source ∧ bench.sinks = List.ofFn sink := by
  have hmembers : bench.network.members.toList =
      List.ofFn (fun index => Participant.node (node index)) ++
        List.ofFn (fun port => Participant.source (source port)) ++
          List.ofFn (fun port => Participant.sink (sink port)) := by
    -- the members come in three blocks
    calc bench.network.members.toList
        = List.ofFn bench.network.member := by
          refine List.ext_get (by simp) fun i hi hother => ?_
          simp [Network.member_eq_getElem]
      _ = List.ofFn (fun index => bench.network.member (wiring.nodeTask index)) ++
            List.ofFn (fun port => bench.network.member (wiring.sourceTask port)) ++
              List.ofFn (fun port => bench.network.member (wiring.sinkTask port)) :=
          List.ofFn_add.trans (congrArg (· ++ _) List.ofFn_add)
      _ = _ := by simp only [hnodes, hsources, hsinks]
  rw [sources, sinks, hmembers]
  simp [List.ofFn_eq_map, List.filterMap_map, Function.comp_def, Participant.source?, Participant.sink?]

/-- What has been collected at an output port was taken out of its channel, and what is
missing in the backlog of an input port was put into its channel. -/
theorem Orderly.evaluation_eq {log : Log (Fin wiring.size) n}
    (horderly : Orderly wiring suite discipline log bench) :
    bench.evaluation.outputs = List.ofFn (fun port : Fin wiring.outputs.length =>
        (port.val, receivedOn (wiring.outputs.get port) log)) ∧
      bench.evaluation.backlog = List.ofFn fun port : Fin wiring.inputs.length =>
        (port.val, (suite.inputs.values port).length -
          (sentOn (wiring.inputs.get port) log).length) := by
  -- nodes stay nodes, sources sources, and sinks sinks
  have hnodes : ∀ index, ∃ node, bench.network.member (wiring.nodeTask index) = .node node := by
    intro index
    have hnode := horderly.follows (wiring.nodeTask index)
    rw [member_nodeTask] at hnode
    generalize bench.network.member (wiring.nodeTask index) = participant at hnode ⊢
    cases hnode with
    | node hruns => exact ⟨_, rfl⟩
  have hsources := fun port => horderly.exists_source (member_sourceTask port)
  have hsinks := fun port => horderly.exists_sink (member_sinkTask port)
  choose node hnode using hnodes
  choose source hsource _ hvalues using hsources
  choose sink hsink _ hresults using hsinks
  obtain ⟨hlistedSources, hlistedSinks⟩ := endpoints_eq hnode hsource hsink
  -- a source has sent its values from the front
  have hbacklog : ∀ port, (source port).backlog =
      (suite.inputs.values port).length - (sentOn (wiring.inputs.get port) log).length := by
    intro port
    rw [Source.backlog_eq, ← hvalues port, List.length_append, Nat.add_sub_cancel_left]
  constructor
  · refine List.ext_getElem (by simp [evaluation, hlistedSinks]) fun port hport hother => ?_
    simp [evaluation, hlistedSinks, hresults]
  · refine List.ext_getElem (by simp [evaluation, hlistedSources]) fun port hport hother => ?_
    simp [evaluation, hlistedSources, hbacklog]

/-! ## Receipts for all operations -/

section Receipts

variable {m : ℕ} {start last : Bench m n} {operations : List (Operation m)} {task : Fin m}
  {receipts : List (Receipt n)}

/-- There is a receipt for each value that the member takes in the operations. -/
inductive Audited (task : Fin m) :
    Bench m n → List (Operation m) → List (Receipt n) → Bench m n → Prop where
  | nil {bench : Bench m n} : Audited task bench [] [] bench
  | load {bench last : Bench m n} {other : Fin m} {source : String} {rest : List (Operation m)}
      {receipts : List (Receipt n)}
      (hrest : Audited task (bench.load other source) rest receipts last) :
      Audited task bench (.load other source :: rest) receipts last
  /-- Nobody gets a new program in the operation. -/
  | cons {bench next last : Bench m n} {operation : Operation m} {rest : List (Operation m)}
      {receipts later : List (Receipt n)}
      (hplain : ∀ other source, operation ≠ .load other source)
      (hperform : bench.perform operation = .ok next)
      (haudited : (bench.network.member task).Audited task
        (deedsOf task (bench.performTrace operation)) receipts (next.network.member task))
      (hrest : Audited task next rest later last) :
      Audited task bench (operation :: rest) (receipts ++ later) last

/-- The receipts are for what was taken, in order. -/
theorem Audited.takings_eq (haudited : start.Audited task operations receipts last) :
    takings (deedsOf task (start.performAllTrace operations)) = receipts.map Receipt.taking := by
  induction haudited with
  | nil => rfl
  | load hrest ih => exact ih
  | cons hplain hperform haudited hrest ih =>
      rw [performAllTrace, hperform, following_ok, deedsOf_append, takings_append,
        haudited.takings_eq, ih, List.map_append]

/-- The receipts of a sink are for its results, one for each. -/
theorem Audited.sink (haudited : start.Audited task operations receipts last) {store : Sink n}
    (hstore : start.network.member task = .sink store) :
    ∃ final, last.network.member task = .sink final ∧
      final.results.map (⟨store.input, ·, .collected⟩) =
        store.results.map (⟨store.input, ·, .collected⟩) ++ receipts := by
  induction haudited generalizing store with
  | nil => exact ⟨store, hstore, (List.append_nil _).symm⟩
  | @load bench last other source rest receipts hrest ih =>
      -- a load leaves a sink as it is
      refine ih ?_
      by_cases hother : task = other
      · subst hother
        exact Network.member_load_self.trans (by rw [hstore]; rfl)
      · exact (Network.member_load_of_ne hother).trans hstore
  | cons hplain hperform haudited hrest ih =>
      rw [hstore] at haudited
      obtain ⟨between, hbetween, hinput, hreceipts⟩ := haudited.sink
      obtain ⟨final, hfinal, hlater⟩ := ih hbetween
      refine ⟨final, hfinal, ?_⟩
      rw [← List.append_assoc, ← hreceipts, ← hinput, hlater]

theorem exists_receipts (hsound : start.network.Sound Network.everyone)
    (hquiet : start.network.IsQuiet) (hperform : start.performAll operations = .ok last)
    (task : Fin m) : ∃ receipts, start.Audited task operations receipts last := by
  induction operations generalizing start with
  | nil =>
      cases hperform
      exact ⟨[], .nil⟩
  | cons operation rest ih =>
      obtain ⟨next, hnext, hrest⟩ := bind_eq_ok.mp hperform
      have hlater : next.network.Sound Network.everyone :=
        (perform_sound hsound operation fun other _ _ =>
          hsound.load fun _ _ _ _ _ _ => Finset.mem_univ other).of_ok hnext
      obtain ⟨-, hcalm⟩ : Path (fun _ => True) .resuming _ _ .resuming next.network ∧ _ :=
        path_of_perform hquiet (fun _ _ _ => trivial) hnext
      obtain ⟨later, hlast⟩ := ih hlater hcalm hrest
      -- a load is not a part of any path that is audited, it stands between two of them
      by_cases hplain : ∀ other source, operation ≠ .load other source
      · obtain ⟨hpath, -⟩ : Path (fun _ => False) .resuming _ _ .resuming next.network ∧ _ :=
          path_of_perform hquiet hplain hnext
        obtain ⟨receipts, haudited⟩ := hpath.exists_receipts hsound (fun _ hload => hload.elim) not_false
        exact ⟨receipts ++ later, .cons hplain hnext haudited hlast⟩
      · obtain ⟨other, source, rfl⟩ : ∃ other source, operation = .load other source := by
          simpa using hplain
        cases hnext
        exact ⟨later, .load hlast⟩

end Receipts

/-! ## Where all values are -/

/-- All values that a bench has worked with are accounted for, if it was `start` before the
operations. -/
structure Conserved (wiring : Wiring n) (suite : Suite) (start : Bench wiring.size n)
    (operations : List (Operation wiring.size)) (bench : Bench wiring.size n) : Prop where
  /-- The channels have changed by what the members did, and in no other way. -/
  replayed : replay start.network.fabric.channels (start.performAllTrace operations) =
    some bench.network.fabric.channels
  /-- What was put into a channel was taken out of it, or is in its buffer. -/
  channels : ∀ k, sentOn k (start.performAllTrace operations) =
    receivedOn k (start.performAllTrace operations) ++ (bench.network.fabric.channel k).buffer
  /-- Whatever a member took out of channels it has read, dropped or collected. -/
  receipts : ∀ task, ∃ receipts, start.Audited task operations receipts bench ∧
    takings (deedsOf task (start.performAllTrace operations)) = receipts.map Receipt.taking
  /-- A source has delivered its values, is sending one, or has still to send them. -/
  inputs : ∀ port : Fin wiring.inputs.length, ∃ source delivered,
    bench.network.member (wiring.sourceTask port) = .source source ∧
      comms (deedsOf (wiring.sourceTask port) (start.performAllTrace operations)) =
        delivered.map (.sent (wiring.inputs.get port)) ∧
      delivered ++ source.pending.toList ++ source.values = suite.inputs.values port ∧
      bench.evaluation.backlog[port.val]? =
        some (port.val, (suite.inputs.values port).length - delivered.length)
  /-- A sink has collected what it took, and nothing else. -/
  outputs : ∀ port : Fin wiring.outputs.length, ∃ sink,
    bench.network.member (wiring.sinkTask port) = .sink sink ∧
      start.Audited (wiring.sinkTask port) operations
        (sink.results.map (⟨wiring.outputs.get port, ·, .collected⟩)) bench ∧
      takings (deedsOf (wiring.sinkTask port) (start.performAllTrace operations)) =
        sink.results.map (wiring.outputs.get port, ·) ∧
      bench.evaluation.outputs[port.val]? = some (port.val, sink.results)

section New

variable (hfresh : ∀ node ∈ wiring.nodes, node.IsFresh)
  (hroom : ∀ k, wiring.capacities.get k + wiring.size ≤ 2 ^ 63 - 1)
  (hperform : (ofWiring wiring suite discipline).performAll operations = .ok bench)

include hfresh hroom hperform

theorem replay_performAllTrace :
    replay (ofWiring wiring suite discipline).network.fabric.channels
      ((ofWiring wiring suite discipline).performAllTrace operations) =
        some bench.network.fabric.channels :=
  (path_ofWiring hperform).replay (sound_ofWiring hfresh hroom suite discipline)
    fun task _ _ _ => Finset.mem_univ task

theorem sentOn_performAllTrace (k : Fin n) :
    sentOn k ((ofWiring wiring suite discipline).performAllTrace operations) =
      receivedOn k ((ofWiring wiring suite discipline).performAllTrace operations) ++
        (bench.network.fabric.channel k).buffer :=
  sentOn_of_replay (replay_performAllTrace hfresh hroom hperform) k

theorem exists_delivered (port : Fin wiring.inputs.length) :
    ∃ source delivered, bench.network.member (wiring.sourceTask port) = .source source ∧
      comms (deedsOf (wiring.sourceTask port)
        ((ofWiring wiring suite discipline).performAllTrace operations)) =
          delivered.map (.sent (wiring.inputs.get port)) ∧
      delivered ++ source.unsent = suite.inputs.values port := by
  have hfollows := (path_ofWiring hperform).follows (sound_ofWiring hfresh hroom suite discipline)
    (fun task _ _ _ => Finset.mem_univ task) (congrArg Participant.node? (member_sourceTask port))
  rw [member_sourceTask] at hfollows
  exact hfollows.exists_source

theorem exists_collected (port : Fin wiring.outputs.length) :
    ∃ sink, bench.network.member (wiring.sinkTask port) = .sink sink ∧
      (ofWiring wiring suite discipline).Audited (wiring.sinkTask port) operations
        (sink.results.map (⟨wiring.outputs.get port, ·, .collected⟩)) bench := by
  obtain ⟨receipts, haudited⟩ := exists_receipts (sound_ofWiring hfresh hroom suite discipline)
    (isQuiet_ofWiring wiring suite discipline) hperform (wiring.sinkTask port)
  obtain ⟨sink, hsink, hresults⟩ := haudited.sink (member_sinkTask port)
  obtain rfl : _ = receipts := hresults
  exact ⟨sink, hsink, haudited⟩

theorem conserved_ofWiring :
    Conserved wiring suite (ofWiring wiring suite discipline) operations bench := by
  have hsound := sound_ofWiring hfresh hroom suite discipline
  have hnodes : ∀ index, ∃ node, bench.network.member (wiring.nodeTask index) = .node node :=
    fun index => (path_ofWiring hperform).exists_node ⟨_, member_nodeTask index⟩
  choose node hnode using hnodes
  choose source delivered hsource hcomms hvalues using exists_delivered hfresh hroom hperform
  choose sink hsink haudited using exists_collected hfresh hroom hperform
  obtain ⟨hsources, hsinks⟩ := endpoints_eq hnode hsource hsink
  constructor
  case replayed => exact replay_performAllTrace hfresh hroom hperform
  case channels => exact sentOn_performAllTrace hfresh hroom hperform
  case receipts =>
    intro task
    obtain ⟨receipts, haccount⟩ := exists_receipts hsound
      (isQuiet_ofWiring wiring suite discipline) hperform task
    exact ⟨receipts, haccount, haccount.takings_eq⟩
  case inputs =>
    intro port
    refine ⟨source port, delivered port, hsource port, hcomms port, ?_, ?_⟩
    · -- what is delivered, what is on its way and what is left make up the input
      rw [List.append_assoc]
      exact hvalues port
    · have hbacklog : (source port).backlog =
          (suite.inputs.values port).length - (delivered port).length := by
        rw [Source.backlog_eq, ← hvalues port, List.length_append, Nat.add_sub_cancel_left]
      simp [evaluation, hsources, hbacklog]
  case outputs =>
    intro port
    refine ⟨sink port, hsink port, haudited port, ?_, by simp [evaluation, hsinks]⟩
    rw [(haudited port).takings_eq, List.map_map]
    rfl

end New

/-- Whatever is done with a bench of new nodes, nothing faults, no value is lost, and sinks
keep what they have collected. -/
theorem conserved_of_performAll (hfresh : ∀ node ∈ wiring.nodes, node.IsFresh)
    (hroom : ∀ k, wiring.capacities.get k + wiring.size ≤ 2 ^ 63 - 1) (suite : Suite)
    (discipline : Discipline) (operations : List (Operation wiring.size)) :
    ∃ bench, (ofWiring wiring suite discipline).performAll operations = .ok bench ∧
      Conserved wiring suite (ofWiring wiring suite discipline) operations bench ∧
      ∀ more, ∃ later, bench.performAll more = .ok later ∧
        List.Forall₂ (fun sink last => sink.results <+: last.results) bench.sinks later.sinks := by
  have hloads : ∀ (operations : List (Operation wiring.size)) task source,
      .load task source ∈ operations → True := fun _ _ _ _ => trivial
  obtain ⟨bench, hperform, hsound⟩ :=
    performAll_sound (sound_ofWiring hfresh hroom suite discipline) operations
  obtain ⟨-, hquiet⟩ := path_of_performAll (isQuiet_ofWiring wiring suite discipline)
    (hloads operations) hperform
  refine ⟨bench, hperform, conserved_ofWiring hfresh hroom hperform, fun more => ?_⟩
  -- sinks only grow along the rest of the path
  obtain ⟨later, hmore, hrest⟩ := exists_path_of_sound hsound hquiet (hloads more)
    fun task _ _ _ => Finset.mem_univ task
  refine ⟨later, hmore, forall₂_sinks rfl fun p q hpq => ?_⟩
  obtain rfl : p = q := Fin.ext hpq
  exact hrest.results_prefix p

/-- The node of the relay gets its program once more while it waits for a value.  It drops
that value, reads the next one and passes it on to the sink. -/
theorem conserved_relay :
    (∀ node ∈ relay.nodes, node.IsFresh) ∧
      (∀ k, relay.capacities.get k + relay.size ≤ 2 ^ 63 - 1) ∧
      ∃ bench, (ofWiring relay ⟨⟨[(0, [7, 8])]⟩, ⟨[(0, [8])]⟩⟩ .firstSettled).performAll
          [.tick, .load ⟨0, by decide⟩ "MOV UP, DOWN", .tick, .tick] = .ok bench ∧
        Conserved relay ⟨⟨[(0, [7, 8])]⟩, ⟨[(0, [8])]⟩⟩
          (ofWiring relay ⟨⟨[(0, [7, 8])]⟩, ⟨[(0, [8])]⟩⟩ .firstSettled)
          [.tick, .load ⟨0, by decide⟩ "MOV UP, DOWN", .tick, .tick] bench ∧
        ∃ later, bench.performAll [.run 5] = .ok later ∧
          List.Forall₂ (fun sink last => sink.results <+: last.results) bench.sinks later.sinks := by
  have hroom : ∀ k, relay.capacities.get k + relay.size ≤ 2 ^ 63 - 1 := by decide
  obtain ⟨bench, hperform, hconserved, hkept⟩ := conserved_of_performAll isFresh_relay hroom
    ⟨⟨[(0, [7, 8])]⟩, ⟨[(0, [8])]⟩⟩ .firstSettled
    [.tick, .load ⟨0, by decide⟩ "MOV UP, DOWN", .tick, .tick]
  exact ⟨isFresh_relay, hroom, bench, hperform, hconserved, hkept [.run 5]⟩

end Bench

end NodeGrid

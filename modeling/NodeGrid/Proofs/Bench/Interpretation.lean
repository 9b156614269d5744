import NodeGrid.Proofs.Bench.Isolation
import NodeGrid.Proofs.Node.Suspension

/-!
# Every node of a bench does what the interpreter does

`interprets_of_performAll`: at every moment after a node has got its program, the node
has the registers of the interpreter that has executed as many instructions with the
values that the node received, and its communications are the port events of that
interpreter.

From the moment in which it gets its program, a node first ends what it had outstanding
and then runs the program by itself (`Node.Since`), whatever happens to it
(`Since.acts`).  And by itself it gets to where the interpreter gets to
(`Node.Runs.interprets`).  All of this is a matter of the node and of the mark that its
step is in flight, so channels may have any capacity.
-/

namespace NodeGrid

variable {n : ℕ}

namespace Node

/-! ## From one program to the next -/

/-- Nothing, or the one deed that ends the operation that the node was engaged in. -/
inductive EndsFormer : Option (Engagement n) → List (Deed n) → Prop where
  | nothing (engagement : Option (Engagement n)) : EndsFormer engagement []
  | ends {operation : Engagement n} {deed : Deed n} (hends : deed.Ends operation) :
      EndsFormer (some operation) [deed]

/-- What a node has done since it got its program, if it was engaged as given then and a
node that has never had another program is `start`. -/
inductive Since (start : Node n) (engagement : Option (Engagement n)) :
    List (Deed n) → Node n → Prop where
  /-- The operation of the program before is outstanding, and nothing has been done. -/
  | outstanding {node : Node n} (hengaged : node.engagement = engagement)
      (habandoned : node.abandoned ≠ none) (hpending : node.pending = none)
      (hcore : node.core = start.core) : Since start engagement [] node
  | runs {former own : List (Deed n)} {node : Node n} (hformer : EndsFormer engagement former)
      (hruns : start.Runs own node) : Since start engagement (former ++ own) node

/-- The node has ended the operation that it was engaged in, if there was one, and then
it has done what the interpreter does. -/
structure InterpretsAfter (engagement : Option (Engagement n)) (deeds : List (Deed n))
    (node : Node n) : Prop where
  interprets : ∃ former own, deeds = former ++ own ∧ EndsFormer engagement former ∧
    node.Interprets (comms own) node.pending
  status_eq : node.status = node.dueStatus

variable {start node after : Node n} {engagement : Option (Engagement n)}
  {deeds before : List (Deed n)} {inFlight flag : Bool}

theorem Since.acts {τ : Type} [DecidableEq τ] {task : τ} (hsince : start.Since engagement before node)
    (hsteady : node.Steady inFlight) (hacts : node.Acts task inFlight deeds after flag) :
    start.Since engagement (before ++ deeds) after := by
  cases hsince with
  | runs hformer hruns =>
      rw [List.append_assoc]
      exact .runs hformer (hruns.acts hsteady hacts)
  | outstanding hengaged habandoned hpending hcore =>
      -- the deed that ends the abandoned operation comes first
      have hended : ∀ {operation : Engagement n} {deed : Deed n}, node.engagement = some operation →
          deed.Ends operation →
          start.Since engagement [deed] { node with abandoned := none } := by
        intro operation deed hoperation hends
        rw [← hengaged, hoperation]
        exact .runs (.ends hends) (runs_of_core hpending rfl hcore)
      have hread : ∀ {port k}, node.abandoned = some (.read port) → node.ports port = some k →
          node.engagement = some (.receiving k) := fun hread hport => by
        rw [engagement_of_abandoned hpending hread, PortOperation.engagement_read hport]
      have hwrite : ∀ {port value k}, node.abandoned = some (.write port value) →
          node.ports port = some k → node.engagement = some (.sending k value) :=
        fun hwrite hport => by
          rw [engagement_of_abandoned hpending hwrite, PortOperation.engagement_write hport]
      cases hacts with
      | begins hstep => exact absurd (hsteady.idle rfl).2 habandoned
      | stalls => exact .outstanding hengaged habandoned hpending hcore
      | rests => exact .outstanding hengaged habandoned hpending hcore
      | resumes hresume =>
          have hresumed := resumed_of_resume hresume
          generalize node.resumeDeeds task _ = deeds at hresumed ⊢
          cases hresumed with
          | received hother _ _ _ _ => simp [hpending] at hother
          | delivered hother _ => simp [hpending] at hother
          | dropped _ hoperation hport hfinish => exact hended (hread hoperation hport) .drops
          | late _ hoperation hport => exact hended (hwrite hoperation hport) .delivers
          | nothing _ hnone => exact absurd hnone habandoned
      | withdraws hwithdraw =>
          have hwithdrawn := withdrawn_of_withdraw hwithdraw
          generalize node.withdrawDeeds = deeds at hwithdrawn ⊢
          cases hwithdrawn with
          | read hoperation hport hcancel => exact hended (hread hoperation hport) .withdrawsReceive
          | write hoperation hport hcancel => exact hended (hwrite hoperation hport) .withdrawsSend

theorem Since.program_eq (hsince : start.Since engagement deeds node) :
    node.program = start.program := by
  cases hsince with
  | outstanding hengaged habandoned hpending hcore =>
      exact show node.core.program = start.core.program by rw [hcore]
  | runs hformer hruns => exact hruns.program_eq

theorem Since.interprets (hsince : start.Since engagement deeds node)
    (hstart : start.Interprets [] none) (hprogram : start.program ≠ []) :
    ∃ former own, deeds = former ++ own ∧ EndsFormer engagement former ∧
      node.Interprets (comms own) node.pending := by
  cases hsince with
  | outstanding hengaged habandoned hpending hcore =>
      refine ⟨[], [], rfl, .nothing _, ?_⟩
      rw [hpending]
      exact hstart.of_core hcore.symm
  | runs hformer hruns => exact ⟨_, _, rfl, hformer, hruns.interprets hprogram hstart⟩

/-- A node that has just got its program. -/
theorem since_load (node : Node n) (source : String) :
    ((inert node.name node.ports).load source).Since (node.load source).engagement []
      (node.load source) := by
  by_cases habandoned : (node.load source).abandoned = none
  · have hruns : ((inert node.name node.ports).load source).Runs [] (node.load source) :=
      runs_of_core rfl habandoned rfl
    exact .runs (.nothing _) hruns
  · exact .outstanding rfl habandoned rfl rfl

/-- A new node begins like the interpreter. -/
theorem IsFresh.interprets {node : Node n} (hfresh : node.IsFresh) : node.Interprets [] none := by
  rcases hfresh with ⟨name, ports, rfl | ⟨source, rfl⟩⟩
  · exact .settled rfl rfl rfl ⟨rfl, rfl, rfl⟩ rfl rfl
  · exact interprets_load name ports source

end Node

/-! ## One node of a network -/

namespace Network

variable {m : ℕ} {network next : Network m n} {loads : Fin m → Prop} {first second : Stage m}
  {log : Log (Fin m) n} {task : Fin m} {node : Node n}

/-- What is put in the place of a node is what it becomes. -/
theorem acts_put {other : Fin m} {member : Participant n} {inFlight : Bool}
    {fabric : Fabric (Fin m) n} {deeds : List (Deed n)} (hmember : network.member task = .node node)
    (hacts : ∀ {node : Node n}, network.member other = .node node → ∃ after, member = .node after ∧
      node.Acts other (network.isPending other) deeds after inFlight) :
    ∃ after, (network.put other member inFlight fabric).member task = .node after ∧
      node.Acts task (network.isPending task) (deedsOf task (logged other deeds)) after
        ((network.put other member inFlight fabric).isPending task) := by
  by_cases hother : task = other
  · subst hother
    rw [deedsOf_logged_self, member_put_self, isPending_put_self]
    exact hacts hmember
  · rw [deedsOf_logged_of_ne hother, member_put_of_ne hother, isPending_put_of_ne hother]
    exact ⟨node, hmember, .rests⟩

/-- In every step, each node acts or gets a new program. -/
theorem Step.acts (hstep : Step loads first network log second next)
    (hmember : network.member task = .node node) :
    (∃ after, next.member task = .node after ∧
        node.Acts task (network.isPending task) (deedsOf task log) after (next.isPending task)) ∨
      loads task ∧ next.isPending task = network.isPending task ∧
        ∃ source, next.member task = .node (node.load source) := by
  cases hstep with
  | begin hidle hbegun =>
      refine Or.inl (acts_put hmember fun hnode => ?_)
      rw [hnode] at hbegun
      obtain ⟨⟨progress, after, rest⟩, hstepped, hpair⟩ := bind_eq_ok.mp hbegun
      cases hpair
      -- whether the node was in flight before is what tells this step from one that goes on
      rw [hidle, hnode]
      exact ⟨after, rfl, .begins hstepped⟩
  | withdraw hpending hwithdrawn =>
      refine Or.inl (acts_put hmember fun hnode => ?_)
      rw [hnode] at hwithdrawn
      obtain ⟨_, after, hsame, rfl, hnodes⟩ := Participant.exists_node_of_withdraw hwithdrawn
      cases hsame
      rw [hpending, hnode]
      exact ⟨after, rfl, .withdraws hnodes⟩
  | @stall _ other _ hpending =>
      -- a stall leaves no deeds, and none are logged
      have hlogged : logged other [] = ([] : Log (Fin m) n) := rfl
      rw [← hlogged]
      refine Or.inl (acts_put hmember fun hnode => ?_)
      rw [hpending, hnode]
      exact ⟨_, rfl, .stalls⟩
  | @resume _ other ready _ _ _ _ _ hstages hready hresumed =>
      rw [resumeTrace, hready]
      refine Or.inl (acts_put hmember fun hnode => ?_)
      rw [hnode] at hresumed
      obtain ⟨⟨progress, after, rest⟩, hnodes, hpair⟩ := bind_eq_ok.mp hresumed
      cases hpair
      rw [hnode]
      exact ⟨after, rfl, .resumes hnodes⟩
  | turn hturn => exact Or.inl ⟨node, hmember, .rests⟩
  | @load _ other source hload =>
      by_cases hother : task = other
      · subst hother
        refine Or.inr ⟨hload, rfl, source, ?_⟩
        rw [member_load_self, hmember]
        rfl
      · refine Or.inl ⟨node, ?_, .rests⟩
        rw [member_load_of_ne hother, hmember]

/-- What a node keeps whatever happens to it, it keeps on every path on which it gets no
new program. -/
theorem Path.keeps_node {kept : List (Deed n) → Node n → Bool → Prop} {deeds : List (Deed n)}
    (hkept : ∀ {deeds more : List (Deed n)} {node after : Node n} {inFlight flag : Bool},
      kept deeds node inFlight → node.Acts task inFlight more after flag →
        kept (deeds ++ more) after flag)
    (hpath : Path loads first network log second next) (hload : ¬ loads task)
    (hstart : ∃ node, network.member task = .node node ∧ kept deeds node (network.isPending task)) :
    ∃ node, next.member task = .node node ∧
      kept (deeds ++ deedsOf task log) node (next.isPending task) := by
  induction hpath generalizing deeds with
  | nil => simpa using hstart
  | cons hstep hrest ih =>
      obtain ⟨node, hmember, hnode⟩ := hstart
      rw [deedsOf_append, ← List.append_assoc]
      rcases hstep.acts hmember with ⟨after, hafter, hacts⟩ | ⟨hloads, -⟩
      · exact ih ⟨after, hafter, hkept hnode hacts⟩
      · exact absurd hloads hload

/-- A node remains a node, and steady, with whatever program. -/
theorem Path.steady (hpath : Path loads first network log second next)
    (hstart : ∃ node, network.member task = .node node ∧ node.Steady (network.isPending task)) :
    ∃ node, next.member task = .node node ∧ node.Steady (next.isPending task) := by
  induction hpath with
  | nil => exact hstart
  | cons hstep hrest ih =>
      obtain ⟨node, hmember, hsteady⟩ := hstart
      rcases hstep.acts hmember with ⟨after, hafter, hacts⟩ | ⟨-, hflag, source, hloaded⟩
      · exact ih ⟨after, hafter, hsteady.acts hacts⟩
      · refine ih ⟨_, hloaded, ?_⟩
        rw [hflag]
        exact hsteady.load source

end Network

/-! ## Benches -/

namespace Bench

open Network (Path)

variable {m : ℕ} {wiring : Wiring n}

/-- What a node keeps of the program that it got: what it has done since, and what a
scheduler and a user rely on. -/
structure Keeps (start : Node n) (engagement : Option (Engagement n)) (deeds : List (Deed n))
    (node : Node n) (inFlight : Bool) : Prop where
  since : start.Since engagement deeds node
  steady : node.Steady inFlight
  status_eq : node.status = node.dueStatus

theorem Keeps.acts {start node after : Node n} {engagement : Option (Engagement n)}
    {deeds more : List (Deed n)} {inFlight flag : Bool} {task : Fin m}
    (hkeeps : Keeps start engagement deeds node inFlight)
    (hacts : node.Acts task inFlight more after flag) :
    Keeps start engagement (deeds ++ more) after flag where
  since := hkeeps.since.acts hkeeps.steady hacts
  steady := hkeeps.steady.acts hacts
  status_eq := hacts.status_eq hkeeps.steady hkeeps.status_eq

/-- The members with the first tasks are the nodes. -/
theorem exists_node_ofWiring (suite : Suite) (discipline : Discipline) {task : Fin wiring.size}
    (htask : task.val < wiring.nodes.length) :
    ∃ node ∈ wiring.nodes, (ofWiring wiring suite discipline).network.member task = .node node := by
  rcases participants_cases (member_ofWiring wiring suite discipline task) with
    ⟨node, hindex, hnode⟩ | ⟨port, k, hindex, -⟩ | ⟨port, k, hindex, -⟩
  · exact ⟨node, List.mem_of_getElem? hindex, hnode⟩
  · omega
  · omega

theorem exists_node_of_performAll {suite : Suite} {discipline : Discipline}
    {operations : List (Operation wiring.size)} {bench : Bench wiring.size n}
    {task : Fin wiring.size} (htask : task.val < wiring.nodes.length)
    (hperform : (ofWiring wiring suite discipline).performAll operations = .ok bench) :
    ∃ node, bench.network.member task = .node node := by
  obtain ⟨first, -, hmember⟩ := exists_node_ofWiring suite discipline htask
  exact (path_ofWiring hperform).exists_node ⟨first, hmember⟩

theorem steady_of_isFresh {node : Node n} (hfresh : node.IsFresh) (inFlight : Bool) :
    node.Steady inFlight := by
  rcases hfresh with ⟨name, ports, rfl | ⟨source, rfl⟩⟩ <;>
    exact ⟨fun _ => ⟨rfl, rfl⟩, Or.inl rfl⟩

/-- A node that begins the program that it got last, or that it had from the start. -/
theorem exists_keeps (hfresh : ∀ node ∈ wiring.nodes, node.IsFresh) {suite : Suite}
    {discipline : Discipline} {before : List (Operation wiring.size)} {bench : Bench wiring.size n}
    (hperform : (ofWiring wiring suite discipline).performAll before = .ok bench)
    {task : Fin wiring.size} (htask : task.val < wiring.nodes.length)
    (hloaded : before = [] ∨ ∃ earlier source, before = earlier ++ [.load task source]) :
    ∃ begun start, bench.network.member task = .node start ∧
      (begun.program ≠ [] → begun.Interprets [] none) ∧
      Keeps begun start.engagement [] start (bench.network.isPending task) := by
  obtain ⟨first, hfirst, hmember⟩ := exists_node_ofWiring suite discipline htask
  have hsteady := steady_of_isFresh (hfresh first hfirst)
  -- the program is the first one, or the one that was loaded last
  rcases hloaded with rfl | ⟨earlier, source, rfl⟩
  · cases hperform
    refine ⟨first, first, hmember, fun _ => (hfresh first hfirst).interprets, ?_, hsteady _, ?_⟩
    · obtain ⟨hpending, habandoned⟩ := (hsteady false).idle rfl
      exact .runs (.nothing _) (Node.runs_of_core hpending habandoned rfl)
    · rcases hfresh first hfirst with ⟨name, ports, rfl | ⟨source, rfl⟩⟩ <;> rfl
  · obtain ⟨between, hbetween, hload⟩ := performAll_append.mp hperform
    cases hload
    obtain ⟨hpath, -⟩ : Path (fun _ => True) .resuming _ _ .resuming between.network ∧ _ :=
      path_of_performAll (isQuiet_ofWiring wiring suite discipline) (fun _ _ _ => trivial) hbetween
    obtain ⟨node, hnode, hnodeSteady⟩ := hpath.steady ⟨first, hmember, hsteady _⟩
    have hloaded : (between.load task source).network.member task = .node (node.load source) := by
      have hself : (between.network.load task source).member task = _ := Network.member_load_self
      rw [hnode] at hself
      exact hself
    exact ⟨_, _, hloaded, fun _ => Node.interprets_load node.name node.ports source,
      Node.since_load node source, hnodeSteady.load source, rfl⟩

/-- Every node does what the interpreter does.  Whatever is done with a bench, and at
every moment of that, a node with instructions has done, since it got its program, what
the interpreter does with the values that came in. -/
theorem interprets_of_performAll (hfresh : ∀ node ∈ wiring.nodes, node.IsFresh) {suite : Suite}
    {discipline : Discipline} {before : List (Operation wiring.size)} {bench : Bench wiring.size n}
    (hperform : (ofWiring wiring suite discipline).performAll before = .ok bench)
    {task : Fin wiring.size} (htask : task.val < wiring.nodes.length)
    (hloaded : before = [] ∨ ∃ earlier source, before = earlier ++ [.load task source]) :
    ∃ start, bench.network.member task = .node start ∧
      (∀ operations last, (∀ source, .load task source ∉ operations) →
        bench.performAll operations = .ok last →
          Path (· ≠ task) .resuming bench.network (bench.performAllTrace operations) .resuming
            last.network) ∧
      ∀ {log stage network}, Path (· ≠ task) .resuming bench.network log stage network →
        ∃ node, network.member task = .node node ∧ node.program = start.program ∧
          (start.program ≠ [] →
            node.InterpretsAfter start.engagement (deedsOf task log)) := by
  obtain ⟨-, hquiet⟩ : Path (fun _ => True) .resuming _ _ .resuming bench.network ∧ _ :=
    path_of_performAll (isQuiet_ofWiring wiring suite discipline) (fun _ _ _ => trivial) hperform
  obtain ⟨begun, start, hstart, hbegins, hkeeps⟩ := exists_keeps hfresh hperform htask hloaded
  refine ⟨start, hstart, fun operations last hkeep hlast => ?_, fun {log stage network} hpath => ?_⟩
  · have hothers : ∀ other source, .load other source ∈ operations → other ≠ task :=
      fun other source hmem heq => hkeep source (heq ▸ hmem)
    exact (path_of_performAll hquiet hothers hlast).1
  · -- what each step keeps is kept along the path, which does not load this node
    obtain ⟨node, hnode, hsince, -, hstatus⟩ := hpath.keeps_node Keeps.acts (not_not_intro rfl)
      ⟨start, hstart, hkeeps⟩
    have hbegun := hkeeps.since.program_eq
    refine ⟨node, hnode, hsince.program_eq.trans hbegun.symm, fun hprogram => ?_⟩
    rw [hbegun] at hprogram
    exact ⟨hsince.interprets (hbegins hprogram) hprogram, hstatus⟩

/-- The relay has instructions, and does what the interpreter does with them. -/
theorem interprets_relay : (∀ node ∈ relay.nodes, node.IsFresh) ∧
    ∃ last node,
      (ofWiring relay ⟨⟨[(0, [7, 8])]⟩, ⟨[(0, [7, 8])]⟩⟩ .lockstep).performAll
        [.tick, .settle, .run 5] = .ok last ∧
      last.network.member ⟨0, by decide⟩ = .node node ∧
      node.program = [.move (.register (.port .up)) (.port .down)] ∧
      node.InterpretsAfter none (deedsOf ⟨0, by decide⟩
        ((ofWiring relay ⟨⟨[(0, [7, 8])]⟩, ⟨[(0, [7, 8])]⟩⟩ .lockstep).performAllTrace
          [.tick, .settle, .run 5])) := by
  have hperform : (ofWiring relay ⟨⟨[(0, [7, 8])]⟩, ⟨[(0, [7, 8])]⟩⟩ .lockstep).performAll [] =
      .ok (ofWiring relay ⟨⟨[(0, [7, 8])]⟩, ⟨[(0, [7, 8])]⟩⟩ .lockstep) := rfl
  obtain ⟨last, hlast, -⟩ := performAll_sound
    (sound_ofWiring isFresh_relay (by decide) ⟨⟨[(0, [7, 8])]⟩, ⟨[(0, [7, 8])]⟩⟩ .lockstep)
    [.tick, .settle, .run 5]
  obtain ⟨start, hstart, hpaths, hinterprets⟩ :=
    interprets_of_performAll isFresh_relay hperform
      (show (⟨0, by decide⟩ : Fin relay.size).val < relay.nodes.length by decide) (Or.inl rfl)
  obtain ⟨node, hnode, hsame, hprogram⟩ := hinterprets (hpaths _ last (by simp) hlast)
  -- the node of the theorem is the first of the relay
  have hfirst : relay.nodes[0]? = some start := by
    have hmember := member_ofWiring relay ⟨⟨[(0, [7, 8])]⟩, ⟨[(0, [7, 8])]⟩⟩ .lockstep ⟨0, by decide⟩
    rw [hstart] at hmember
    cases hmember
    rfl
  have hrelay : start.program = [.move (.register (.port .up)) (.port .down)] := by
    cases hfirst
    exact eq_of_beq (by decide +kernel)
  have hengaged : start.engagement = none := by
    cases hfirst
    rfl
  exact ⟨isFresh_relay, last, node, hlast, hnode, hsame.trans hrelay,
    hengaged ▸ hprogram (by simp [hrelay])⟩

end Bench

end NodeGrid

import NodeGrid.Proofs.Network.Moves

/-!
# What a participant communicates

A participant reads and writes the channels behind the ports in its program; a source
writes its output and a sink reads its input.  `Participant.Follows` says what a
participant has communicated since it was `start`: a node what it communicates by
itself, a source its values in order, and a sink whatever it has collected.  Every move
keeps this (`Follows.moves`).

Two participants that began in the same way agree in what they communicate, up to the
values that they receive (`Follows.agree`), and use only the channels that they are
meant to use (`Follows.isUse`).
-/

namespace NodeGrid

variable {n : ℕ}

/-! ## Channels that are read and written -/

namespace Node

/-- Whether the program reads the channel. -/
def reads (node : Node n) (k : Fin n) : Bool :=
  node.program.any fun instruction => instruction.readPort?.bind node.ports == some k

/-- Whether the program writes the channel. -/
def writes (node : Node n) (k : Fin n) : Bool :=
  node.program.any fun instruction => instruction.writtenPort?.bind node.ports == some k

end Node

namespace Participant

/-- Whether the participant reads the channel. -/
def reads : Participant n → Fin n → Bool
  | .node processor, k => processor.reads k
  | .source _, _ => false
  | .sink store, k => store.input == k

/-- Whether the participant writes the channel. -/
def writes : Participant n → Fin n → Bool
  | .node processor, k => processor.writes k
  | .source feed, k => feed.output == k
  | .sink _, _ => false

theorem reads_or_writes_of_uses {participant : Participant n} {k : Fin n}
    (huses : participant.Uses k) : participant.reads k ∨ participant.writes k := by
  cases participant with
  | source feed => exact Or.inr (beq_iff_eq.mpr huses)
  | sink store => exact Or.inl (beq_iff_eq.mpr huses)
  | node processor =>
      obtain ⟨instruction, hmem, port, hport, hk⟩ := huses
      rcases Instruction.mem_ports_iff.mp hport with hread | hwritten
      · refine Or.inl (List.any_eq_true.mpr ⟨instruction, hmem, ?_⟩)
        simp [hread, hk]
      · refine Or.inr (List.any_eq_true.mpr ⟨instruction, hmem, ?_⟩)
        simp [hwritten, hk]

end Participant

/-! ## The channels that a node uses by itself -/

namespace Demand

/-- What a node is about to do, its program says. -/
def IsMeant : Demand n → Prop
  | .paused (.settled _) => True
  | .paused (.writing port _ node) =>
      ∃ instruction ∈ node.program, instruction.writtenPort? = some port
  | .reading port node => ∃ instruction ∈ node.program, instruction.readPort? = some port

end Demand

variable {node : Node n}

theorem Node.current_mem {instruction : Instruction} (hcurrent : node.current = .ok instruction) :
    instruction ∈ node.program := by
  unfold current at hcurrent
  split at hcurrent
  · rename_i found hfound
    cases hcurrent
    exact List.mem_of_getElem? hfound
  · cases hcurrent

theorem Node.isMeant_pauseAfterRead {value : Int64} {pause : Pause n}
    (hpause : node.pauseAfterRead value = .ok pause) : (Demand.paused pause).IsMeant := by
  obtain ⟨acc, target, rfl⟩ | ⟨instruction, port, hcurrent, hwritten, rfl⟩ :=
    pauseAfterRead_eq_ok hpause
  · exact trivial
  · exact ⟨instruction, current_mem hcurrent, hwritten⟩

theorem Node.isMeant_demandExecute {demand : Demand n} (hdemand : node.demandExecute = .ok demand) :
    demand.IsMeant := by
  obtain ⟨acc, bak, target, rfl⟩ | ⟨value, pause, hpause, rfl⟩ |
    ⟨instruction, port, hcurrent, hread, rfl⟩ := demandExecute_eq_ok hdemand
  · exact trivial
  · exact isMeant_pauseAfterRead hpause
  · exact ⟨instruction, current_mem hcurrent, hread⟩

theorem Node.isMeant_demand {demand : Demand n} (hdemand : node.demand = .ok demand) :
    demand.IsMeant := by
  rw [demand_eq] at hdemand
  split at hdemand
  · cases hdemand
    exact trivial
  · exact isMeant_demandExecute hdemand

/-- The participant with the given uses may communicate like this. -/
def Comm.IsUse (reads writes : Fin n → Bool) : Comm n → Prop
  | .sent k _ => writes k
  | .received k _ => reads k

/-- A node with the same ports and the same program uses the same channels. -/
theorem Node.Continues.reads_eq {later : Node n} (hcontinues : node.Continues later) :
    later.reads = node.reads := by
  funext k
  simp only [Node.reads, Node.program, hcontinues.ports_eq, hcontinues.compilation_eq]

theorem Node.Continues.writes_eq {later : Node n} (hcontinues : node.Continues later) :
    later.writes = node.writes := by
  funext k
  simp only [Node.writes, Node.program, hcontinues.ports_eq, hcontinues.compilation_eq]

/-- A node by itself uses the channels that its program names. -/
theorem Demand.Leads.isUse {first second : Demand n} {comms : List (Comm n)}
    (hleads : first.Leads comms second) (hmeant : first.IsMeant) :
    ∀ comm ∈ comms, comm.IsUse first.node.reads first.node.writes := by
  induction hleads with
  | refl demand => simp
  | begin hdemand hrest ih =>
      have hcontinues := Node.continues_demand hdemand
      have hlater := ih (Node.isMeant_demand hdemand)
      rw [hcontinues.reads_eq, hcontinues.writes_eq] at hlater
      exact hlater
  | @sent node port k value last comms hport hrest ih =>
      -- what is sent has been meant by an instruction of the program
      obtain ⟨instruction, hmem, hwritten⟩ := hmeant
      have hwrites : node.writes k :=
        List.any_eq_true.mpr ⟨instruction, hmem, by simp [hwritten, hport]⟩
      exact List.forall_mem_cons.mpr ⟨hwrites, ih trivial⟩
  | @received node port k value pause last comms hport hpause hrest ih =>
      obtain ⟨instruction, hmem, hread⟩ := hmeant
      have hreads : node.reads k :=
        List.any_eq_true.mpr ⟨instruction, hmem, by simp [hread, hport]⟩
      have hcontinues := Node.continues_pauseAfterRead hpause
      have hlater := ih (Node.isMeant_pauseAfterRead hpause)
      rw [show Node.reads (Demand.paused pause).node = node.reads from hcontinues.reads_eq,
        show Node.writes (Demand.paused pause).node = node.writes from hcontinues.writes_eq] at hlater
      exact List.forall_mem_cons.mpr ⟨hreads, hlater⟩

/-! ## What a participant has communicated -/

section Endpoints

variable {τ : Type} {task : τ} {fabric rest : Fabric τ n} {progress : Progress}

/-- The values that the source has not delivered, in order. -/
def Source.unsent (source : Source n) : List Int64 := source.pending.toList ++ source.values

theorem Source.backlog_eq (source : Source n) : source.backlog = source.unsent.length := by
  rw [backlog, unsent, List.length_append, Nat.add_comm]

theorem Source.unsent_step (source : Source n) (task : τ) (fabric : Fabric τ n)
    (hpending : source.pending = none) :
    source.unsent.map (.sent source.output) =
      comms (source.stepDeeds task fabric) ++
        (source.step task fabric).2.1.unsent.map (.sent source.output) := by
  unfold step stepDeeds
  cases hvalues : source.values with
  | nil => simp [unsent, hvalues]
  | cons value values =>
      obtain ⟨⟨status, rest⟩, hsend⟩ : ∃ outcome,
        fabric.send source.output value task = outcome := ⟨_, rfl⟩
      simp only [hsend]
      cases status <;> simp [unsent, hvalues, hpending, comms_cons, Deed.comm?]

theorem Source.unsent_resume (source : Source n) (fabric : Fabric τ n) :
    source.unsent.map (.sent source.output) =
      comms source.resumeDeeds ++ (source.resume fabric).1.unsent.map (.sent source.output) := by
  cases hpending : source.pending with
  | none => simp [unsent, resume, resumeDeeds, hpending]
  | some value => simp [unsent, resume, resumeDeeds, hpending, comms_cons, Deed.comm?]

variable {sink after : Sink n}

theorem Sink.results_step (hstep : sink.step task fabric = .ok (progress, after, rest)) :
    after.results.map (.received sink.input) =
      sink.results.map (.received sink.input) ++ comms (sink.stepDeeds task fabric) := by
  obtain ⟨⟨status, between⟩, hreceive, hpair⟩ := bind_eq_ok.mp hstep
  rw [stepDeeds, hreceive, following_ok]
  cases status <;> cases hpair <;> simp [comms_cons, Deed.comm?]

theorem Sink.results_resume (hresume : sink.resume fabric = .ok (after, rest)) :
    after.results.map (.received sink.input) =
      sink.results.map (.received sink.input) ++ comms (sink.resumeDeeds fabric) := by
  unfold resume at hresume
  unfold resumeDeeds
  split at hresume
  · rename_i hwaiting
    obtain ⟨⟨value, between⟩, hfinish, hpair⟩ := bind_eq_ok.mp hresume
    cases hpair
    simp [hwaiting, hfinish, comms_cons, Deed.comm?]
  · rename_i hwaiting
    cases hresume
    simp [hwaiting]

end Endpoints

/-! ## Participants by themselves -/

theorem agree_of_prefix {first second all : List (Comm n)} (hfirst : first <+: all)
    (hsecond : second <+: all) : Agree first second := by
  induction first generalizing second all with
  | nil => exact .left second
  | cons comm first ih =>
      cases second with
      | nil => exact .right _
      | cons other second =>
          obtain ⟨rest, rfl⟩ := hfirst
          obtain ⟨rfl, hrest⟩ := List.cons_prefix_cons.mp hsecond
          exact .same other (ih (List.prefix_append first rest) hrest)

theorem agree_received (k : Fin n) (first second : List Int64) :
    Agree (first.map (.received k)) (second.map (.received k)) := by
  induction first generalizing second with
  | nil => exact .left _
  | cons value first ih =>
      cases second with
      | nil => exact .right _
      | cons other second =>
          by_cases hvalue : value = other
          · subst hvalue
            exact .same _ (ih second)
          · exact .received k hvalue

namespace Participant

/-- What a participant has done since it was `start`, and what has become of it. -/
inductive Follows : Participant n → List (Deed n) → Participant n → Prop where
  | node {start now : Node n} {deeds : List (Deed n)} (hruns : start.Runs deeds now) :
      Follows (.node start) deeds (.node now)
  /-- The source has sent its values in order, up to those that it has still to send. -/
  | source {start now : Source n} {deeds : List (Deed n)} (houtput : now.output = start.output)
      (hunsent : start.unsent.map (.sent start.output) =
        comms deeds ++ now.unsent.map (.sent start.output)) :
      Follows (.source start) deeds (.source now)
  /-- The sink has received what it holds now and did not hold before. -/
  | sink {start now : Sink n} {deeds : List (Deed n)} (hinput : now.input = start.input)
      (hresults : now.results.map (.received start.input) =
        start.results.map (.received start.input) ++ comms deeds) :
      Follows (.sink start) deeds (.sink now)

variable {start participant after : Participant n} {deeds more : List (Deed n)}

/-- A participant with nothing outstanding has still to begin. -/
theorem Sound.follows {allowed : Fin n → Prop} (hsound : participant.Sound allowed)
    (hidle : participant.engagement = none) : participant.Follows [] participant := by
  cases participant with
  | node processor =>
      obtain ⟨hpending, habandoned⟩ := (Node.Sound.engagement_eq_none_iff hsound).mp hidle
      exact .node (Node.runs_of_core hpending habandoned rfl)
  | source feed => exact .source rfl rfl
  | sink store => exact .sink rfl (by simp)

/-- A source goes on from where it is. -/
theorem Follows.source_trans {feed now next : Source n}
    (hfollows : (Participant.source feed).Follows deeds (.source now)) (houtput : next.output = now.output)
    (hunsent : now.unsent.map (.sent now.output) = comms more ++ next.unsent.map (.sent now.output)) :
    (Participant.source feed).Follows (deeds ++ more) (.source next) := by
  cases hfollows with
  | source hsame hbefore =>
      refine .source (houtput.trans hsame) ?_
      rw [hsame] at hunsent
      rw [hbefore, hunsent, comms_append, List.append_assoc]

/-- A sink goes on from where it is. -/
theorem Follows.sink_trans {store now next : Sink n}
    (hfollows : (Participant.sink store).Follows deeds (.sink now)) (hinput : next.input = now.input)
    (hresults : next.results.map (.received now.input) =
      now.results.map (.received now.input) ++ comms more) :
    (Participant.sink store).Follows (deeds ++ more) (.sink next) := by
  cases hfollows with
  | sink hsame hbefore =>
      refine .sink (hinput.trans hsame) ?_
      rw [hsame] at hresults
      rw [hresults, hbefore, comms_append, List.append_assoc]

/-- Whatever happens to a participant, it does what it would do by itself. -/
theorem Follows.moves {τ : Type} [DecidableEq τ] {task : τ} (hfollows : start.Follows deeds participant)
    (hmoves : participant.Moves task more after) : start.Follows (deeds ++ more) after := by
  cases hfollows with
  | node hruns =>
      obtain ⟨next, rfl, hnode⟩ := hmoves.node
      exact .node (hruns.moves hnode)
  | @source feed now _ houtput hunsent =>
      have hfollows : (Participant.source feed).Follows deeds (.source now) := .source houtput hunsent
      cases hmoves with
      | @begins _ _ fabric _ _ _ hidle hstep =>
          cases hstep
          refine hfollows.source_trans (now.output_step task fabric) ?_
          exact now.unsent_step task fabric (Option.map_eq_none_iff.mp hidle)
      | @resumes _ fabric _ _ hengaged hresume =>
          cases hresume
          exact hfollows.source_trans (now.output_resume fabric) (now.unsent_resume fabric)
      | withdraws hwithdraw => cases hwithdraw
      | stalls hengaged => exact (List.append_nil deeds).symm ▸ hfollows
      | rests => exact (List.append_nil deeds).symm ▸ hfollows
  | @sink store now _ hinput hresults =>
      -- sinks take what they receive, and nothing else happens to them
      have hfollows : (Participant.sink store).Follows deeds (.sink now) := .sink hinput hresults
      cases hmoves with
      | begins hsound hidle hstep =>
          obtain ⟨⟨progress, next, rest⟩, hsink, hpair⟩ := bind_eq_ok.mp hstep
          cases hpair
          exact hfollows.sink_trans (Sink.input_of_step hsink) (Sink.results_step hsink)
      | resumes hengaged hresume =>
          obtain ⟨⟨next, rest⟩, hsink, hpair⟩ := bind_eq_ok.mp hresume
          cases hpair
          exact hfollows.sink_trans (Sink.input_of_resume hsink) (Sink.results_resume hsink)
      | withdraws hwithdraw => cases hwithdraw
      | stalls hengaged => exact (List.append_nil deeds).symm ▸ hfollows
      | rests => exact (List.append_nil deeds).symm ▸ hfollows

theorem follows_of_node?_eq_none (hend : participant.node? = none) :
    participant.Follows [] participant := by
  cases participant with
  | node processor => cases hend
  | source feed => exact .source rfl rfl
  | sink store => exact .sink rfl (by simp)

/-- Sources and sinks have no programs that could be replaced. -/
theorem Follows.load (hfollows : start.Follows deeds participant) (hend : start.node? = none)
    (source : String) : start.Follows deeds (participant.load source) := by
  cases hfollows with
  | node hruns => cases hend
  | source houtput hunsent => exact .source houtput hunsent
  | sink hinput hresults => exact .sink hinput hresults

/-- A participant uses only the channels that it is meant to use. -/
theorem Follows.isUse (hfollows : start.Follows deeds participant) :
    ∀ comm ∈ comms deeds, comm.IsUse start.reads start.writes := by
  cases hfollows with
  | node hruns =>
      obtain ⟨demand, hleads, -⟩ := hruns.leads
      exact hleads.isUse trivial
  | source houtput hunsent =>
      intro comm hmem
      have hsent := hunsent ▸ List.mem_append_left _ hmem
      obtain ⟨value, -, rfl⟩ := List.mem_map.mp hsent
      exact beq_self_eq_true _
  | sink hinput hresults =>
      intro comm hmem
      have hreceived := hresults ▸ List.mem_append_right _ hmem
      obtain ⟨value, -, rfl⟩ := List.mem_map.mp hreceived
      exact beq_self_eq_true _

theorem filterMap_received (k : Fin n) (values : List Int64) :
    (values.map (.received k)).filterMap (Comm.received? k) = values := by
  rw [List.filterMap_map]
  exact (List.filterMap_congr fun value _ => if_pos rfl).trans List.filterMap_some

theorem filterMap_sent (k : Fin n) (values : List Int64) :
    (values.map (.sent k)).filterMap (Comm.sent? k) = values := by
  rw [List.filterMap_map]
  exact (List.filterMap_congr fun value _ => if_pos rfl).trans List.filterMap_some

/-- What is a sink remains one, and is the only kind of participant that becomes one. -/
theorem Follows.sink_cases (hfollows : start.Follows deeds participant) :
    (start.sink? = none ∧ participant.sink? = none) ∨
      ∃ store last, start = .sink store ∧ participant = .sink last ∧ last.input = store.input ∧
        last.results = store.results ++ (comms deeds).filterMap (Comm.received? store.input) := by
  cases hfollows with
  | node hruns => exact Or.inl ⟨rfl, rfl⟩
  | source houtput hunsent => exact Or.inl ⟨rfl, rfl⟩
  | @sink store last _ hinput hresults =>
      refine Or.inr ⟨store, last, rfl, rfl, hinput, ?_⟩
      have hreceived := congrArg (List.filterMap (Comm.received? store.input)) hresults
      rwa [List.filterMap_append, filterMap_received, filterMap_received] at hreceived

/-- A source has delivered the first of its values, and remains a source. -/
theorem Follows.exists_source {feed : Source n}
    (hfollows : (Participant.source feed).Follows deeds participant) :
    ∃ last delivered, participant = .source last ∧
      comms deeds = delivered.map (.sent feed.output) ∧ delivered ++ last.unsent = feed.unsent := by
  cases hfollows with
  | @source _ last _ houtput hunsent =>
      obtain ⟨delivered, rest, hsplit, hdelivered, hrest⟩ := List.map_eq_append_iff.mp hunsent
      have hinjective : Function.Injective (Comm.sent feed.output) := fun _ _ heq =>
        (Comm.sent.inj heq).2
      refine ⟨last, delivered, rfl, hdelivered.symm, ?_⟩
      rw [hsplit, List.map_injective_iff.mpr hinjective hrest]

theorem Follows.output_eq {feed last : Source n}
    (hfollows : (Participant.source feed).Follows deeds (.source last)) :
    last.output = feed.output := by
  cases hfollows with
  | source houtput hunsent => exact houtput

/-- A sink reads the channel that it began with. -/
theorem Follows.rel_input (hfollows : start.Follows deeds participant) :
    Option.Rel (fun store last => store.input = last.input) start.sink? participant.sink? := by
  rcases hfollows.sink_cases with ⟨hstart, hnow⟩ | ⟨store, last, rfl, rfl, hinput, -⟩
  · rw [hstart, hnow]
    exact .none
  · exact .some hinput.symm

/-- Two participants that began alike do not differ first in anything but a value that
they receive. -/
theorem Follows.agree {other : Participant n} (hfollows : start.Follows deeds participant)
    (hother : start.Follows more other) : Agree (comms deeds) (comms more) := by
  cases hfollows with
  | node hruns =>
      cases hother with
      | node hotherRuns =>
          obtain ⟨demand, hleads, -⟩ := hruns.leads
          obtain ⟨last, hlast, -⟩ := hotherRuns.leads
          exact hleads.agree hlast
  | source houtput hunsent =>
      cases hother with
      | source hotherOutput hotherUnsent =>
          -- what a source sends does not depend on anybody
          exact agree_of_prefix ⟨_, hunsent.symm⟩ ⟨_, hotherUnsent.symm⟩
  | sink hinput hresults =>
      cases hother with
      | sink hotherInput hotherResults =>
          obtain ⟨-, values, -, -, hvalues⟩ := List.map_eq_append_iff.mp hresults
          obtain ⟨-, others, -, -, hothers⟩ := List.map_eq_append_iff.mp hotherResults
          rw [← hvalues, ← hothers]
          exact agree_received _ values others

end Participant

end NodeGrid

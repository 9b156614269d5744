import NodeGrid.Proofs.Bench.Budget
import NodeGrid.Proofs.Bench.Conservation
import Mathlib.Data.List.Indexes

/-!
# When a bench is complete

What takes part in a new bench are the nodes of the wiring, a source for every input port
and a sink for every output port, in the order of the ports (`nodes_ofWiring`,
`sources_ofWiring`).  Whatever is done with the bench, its sinks stay at their channels
(`map_input_sinks`), and what is expected on the output ports does not change
(`expected_of_performAll`).

So a bench is complete exactly if as many values have been collected at every output port
as are expected there (`isComplete_iff_of_performAll`).
-/

namespace NodeGrid

variable {m n : ℕ}

/-! ## Where sinks are -/

/-- The channel that a sink empties. -/
def Participant.outlet? (participant : Participant n) : Option (Fin n) :=
  participant.sink?.map Sink.input

namespace Participant

variable {τ : Type} {task : τ} {fabric rest : Fabric τ n} {progress : Progress}
  {participant after : Participant n}

theorem outlet?_of_step (hstep : participant.step task fabric = .ok (progress, after, rest)) :
    after.outlet? = participant.outlet? := by
  cases participant with
  | node processor =>
      obtain ⟨⟨_, next, _⟩, -, hpair⟩ := bind_eq_ok.mp hstep
      cases hpair
      rfl
  | source feed =>
      cases hstep
      rfl
  | sink store =>
      obtain ⟨⟨_, next, _⟩, hsink, hpair⟩ := bind_eq_ok.mp hstep
      cases hpair
      obtain ⟨⟨status, between⟩, -, hpair⟩ := bind_eq_ok.mp hsink
      cases status <;> cases hpair <;> rfl

theorem outlet?_of_resume (hresume : participant.resume task fabric = .ok (progress, after, rest)) :
    after.outlet? = participant.outlet? := by
  cases participant with
  | node processor =>
      obtain ⟨⟨_, next, _⟩, -, hpair⟩ := bind_eq_ok.mp hresume
      cases hpair
      rfl
  | source feed =>
      cases hresume
      rfl
  | sink store =>
      obtain ⟨⟨next, _⟩, hsink, hpair⟩ := bind_eq_ok.mp hresume
      cases hpair
      unfold Sink.resume at hsink
      split at hsink
      · obtain ⟨⟨value, between⟩, -, hpair⟩ := bind_eq_ok.mp hsink
        cases hpair
        rfl
      · cases hsink
        rfl

theorem outlet?_of_withdraw [DecidableEq τ]
    (hwithdraw : participant.withdraw task fabric = .ok (some (after, rest))) :
    after.outlet? = participant.outlet? := by
  obtain ⟨processor, next, rfl, rfl, -⟩ := exists_node_of_withdraw hwithdraw
  rfl

theorem Changes.outlet?_eq (hchanges : participant.Changes m after) :
    after.outlet? = participant.outlet? := by
  cases hchanges with
  | step hstep => exact outlet?_of_step hstep
  | resume hresume => exact outlet?_of_resume hresume
  | withdraw hwithdraw => exact outlet?_of_withdraw hwithdraw
  | stall => cases participant <;> rfl
  | load => cases participant <;> rfl

/-- Sinks stay where they are, whatever happens. -/
theorem outlet?_of_changes (hchanges : Relation.ReflTransGen (Changes m) participant after) :
    after.outlet? = participant.outlet? := by
  induction hchanges with
  | refl => rfl
  | tail _ hlast ih => exact hlast.outlet?_eq.trans ih

end Participant

namespace Bench

variable {bench last : Bench m n}

/-! ## What is expected -/

theorem expected_of_tick (htick : bench.tick = .ok last) : last.expected = bench.expected := by
  obtain ⟨⟨_, network⟩, -, hpair⟩ := bind_eq_ok.mp htick
  cases hpair
  rfl

theorem expected_of_settle (hsettle : bench.settle = .ok last) :
    last.expected = bench.expected := by
  obtain ⟨⟨_, network⟩, -, hpair⟩ := bind_eq_ok.mp hsettle
  cases hpair
  rfl

theorem expected_of_tickUpTo {budget : ℕ} (hended : bench.tickUpTo budget = .ok last) :
    last.expected = bench.expected := by
  induction budget generalizing bench with
  | zero =>
      cases hended
      rfl
  | succ budget ih =>
      unfold tickUpTo at hended
      split at hended
      · cases hended
        rfl
      · obtain ⟨next, hnext, hrest⟩ := bind_eq_ok.mp hended
        rw [ih hrest, expected_of_tick hnext]

theorem expected_of_perform {operation : Operation m}
    (hperform : bench.perform operation = .ok last) : last.expected = bench.expected := by
  cases operation with
  | tick => exact expected_of_tick hperform
  | run budget =>
      obtain ⟨⟨count, settled⟩, hrun, hpair⟩ := bind_eq_ok.mp hperform
      cases hpair
      obtain ⟨ended, hended, hrest⟩ := bind_eq_ok.mp hrun
      obtain ⟨next, hsettle, hpair⟩ := bind_eq_ok.mp hrest
      cases hpair
      rw [expected_of_settle hsettle, expected_of_tickUpTo hended]
  | settle => exact expected_of_settle hperform
  | load task source =>
      cases hperform
      rfl

theorem expected_of_performAll {operations : List (Operation m)}
    (hperform : bench.performAll operations = .ok last) : last.expected = bench.expected := by
  induction operations generalizing bench with
  | nil =>
      cases hperform
      rfl
  | cons operation rest ih =>
      obtain ⟨next, hnext, hrest⟩ := bind_eq_ok.mp hperform
      rw [ih hrest, expected_of_perform hnext]

/-! ## Who takes part -/

section Start

variable {wiring : Wiring n} {suite : Suite} {discipline : Discipline}

/-- The participants, kind by kind. -/
theorem members_ofWiring : (ofWiring wiring suite discipline).network.members.toList =
    wiring.nodes.map .node ++
      (wiring.inputs.mapIdx fun port => Source.ofValues (suite.inputs.values port)).map .source ++
        (wiring.outputs.map Sink.ofChannel).map .sink := by
  change wiring.participants suite = _
  rw [Wiring.participants, List.mapIdx_eq_ofFn, List.mapIdx_eq_ofFn, List.map_ofFn, List.map_map]
  rfl

theorem nodes_ofWiring : (ofWiring wiring suite discipline).nodes = wiring.nodes := by
  rw [nodes, members_ofWiring]
  simp [List.filterMap_append, List.filterMap_map, Function.comp_def, Participant.node?]

theorem sources_ofWiring : (ofWiring wiring suite discipline).sources =
    wiring.inputs.mapIdx fun port k => .ofValues (suite.inputs.values port) k := by
  rw [sources, members_ofWiring]
  simp [List.filterMap_append, List.filterMap_map, Function.comp_def, Participant.source?]

end Start

/-! ## When a bench is complete -/

theorem isComplete_iff {bench : Bench m n} : bench.isComplete = true ↔
    ∀ (port : ℕ) sink count, bench.sinks[port]? = some sink → bench.expected[port]? = some count →
      count ≤ sink.results.length := by
  rw [isComplete, List.all_eq_true]
  constructor
  · intro hall port sink count hsink hcount
    have hzip : (bench.sinks.zip bench.expected)[port]? = some (sink, count) :=
      List.getElem?_zip_eq_some.mpr ⟨hsink, hcount⟩
    exact of_decide_eq_true (hall _ (List.mem_of_getElem? hzip))
  · rintro hports ⟨sink, count⟩ hmem
    obtain ⟨port, hzip⟩ := List.mem_iff_getElem?.mp hmem
    obtain ⟨hsink, hcount⟩ := List.getElem?_zip_eq_some.mp hzip
    exact decide_eq_true (hports port sink count hsink hcount)

theorem getElem?_outputs (bench : Bench m n) (port : ℕ) :
    bench.evaluation.outputs[port]? =
      bench.sinks[port]?.map fun sink => (port, sink.results) :=
  List.getElem?_mapIdx

theorem map_input_eq (bench : Bench m n) : bench.sinks.map Sink.input =
    (bench.network.members.toList.map Participant.outlet?).filterMap id := by
  rw [sinks, List.map_filterMap, List.filterMap_map]
  rfl

section Performed

variable {wiring : Wiring n} {suite : Suite} {discipline : Discipline}
  {operations : List (Operation wiring.size)} {last : Bench wiring.size n}
  (hperform : (ofWiring wiring suite discipline).performAll operations = .ok last)

include hperform

/-- There is still a sink for every output port, in their order. -/
theorem map_input_sinks : last.sinks.map Sink.input = wiring.outputs := by
  obtain ⟨hpath, -⟩ :=
    path_of_performAll (isQuiet_ofWiring wiring suite discipline) (fun _ _ _ => trivial) hperform
  have hmembers : last.network.members.toList.map Participant.outlet? =
      (ofWiring wiring suite discipline).network.members.toList.map Participant.outlet? := by
    refine List.ext_getElem (by simp) fun index hindex hother => ?_
    have hsize : index < wiring.size := by simpa using hindex
    have houtlet := Participant.outlet?_of_changes (hpath.changes ⟨index, hsize⟩)
    simpa [Network.member_eq_getElem] using houtlet
  rw [map_input_eq, hmembers, ← map_input_eq, sinks_ofWiring, List.map_map]
  exact List.map_id _

/-- The sink of an output port is still at the channel of the port. -/
theorem exists_sink_of_outputs {port : ℕ} {k : Fin n} (hport : wiring.outputs[port]? = some k) :
    ∃ sink, last.sinks[port]? = some sink ∧ sink.input = k := by
  rw [← map_input_sinks hperform, List.getElem?_map] at hport
  exact Option.map_eq_some_iff.mp hport

/-- A bench is complete exactly if as much has been collected at the output ports as is
expected there. -/
theorem isComplete_iff_of_performAll : last.isComplete = true ↔
    ∀ port values results, suite.outputs.find? port = some values →
      last.evaluation.outputs[port]? = some (port, results) → values.length ≤ results.length := by
  rw [isComplete_iff, expected_of_performAll hperform]
  -- a sink stands at the number of its port, in both directions
  constructor
  · intro hcomplete port values results hvalues hresults
    rw [getElem?_outputs] at hresults
    obtain ⟨sink, hsink, hpair⟩ := Option.map_eq_some_iff.mp hresults
    cases hpair
    have hinput : wiring.outputs[port]? = some sink.input := by
      rw [← map_input_sinks hperform, List.getElem?_map, hsink]
      rfl
    refine hcomplete port sink _ hsink ?_
    simp [ofWiring, hinput, PortTable.values, hvalues]
  · intro hcollected port sink count hsink hcount
    obtain ⟨k, -, rfl⟩ : ∃ k, wiring.outputs[port]? = some k ∧
        (suite.outputs.values port).length = count := by
      simpa [ofWiring] using hcount
    -- of a port that the suite does not name nothing is expected
    cases hvalues : suite.outputs.find? port with
    | none => simp [PortTable.values, hvalues]
    | some values =>
        rw [PortTable.values, hvalues]
        exact hcollected port values sink.results hvalues (by rw [getElem?_outputs, hsink]; rfl)

end Performed

end Bench

end NodeGrid

import NodeGrid.Proofs.Assembly.RoundTrip
import NodeGrid.Proofs.Bench.Budget
import NodeGrid.Proofs.Bench.Interpretation
import NodeGrid.Proofs.Network.Abandoned
import NodeGrid.Proofs.Network.Cycles

/-!
# How soon a new program starts

A node that gets a new program may have an operation of the old one outstanding.  In
lockstep the next tick gets rid of that operation, by a withdrawal before the node begins
a step or else before the tick ends (`Network.Sound.abandoned_of_lockstep`).  In the first
case the new program starts in the same tick, in the second one the node comes to its next
visit with nothing outstanding (`Network.Sound.starts_of_lockstep`).
-/

namespace NodeGrid

open Assembly (Compilation)

variable {m n : ℕ} {compilation : Compilation}

/-! ## The first step of a program -/

namespace Node

variable {node after : Node n} {τ : Type} {task : τ} {fabric rest : Fabric τ n} {progress : Progress}

/-- The node has a program of which no step has begun. -/
structure IsUnstarted (node : Node n) (compilation : Compilation) : Prop where
  compilation_eq : node.compilation = some compilation
  nextIp_eq : node.nextIp = 0
  executed_eq : node.executed = 0
  pending_eq : node.pending = none

/-- The node has begun one step of its program, with the first instruction. -/
structure HasStarted (node : Node n) (compilation : Compilation) : Prop where
  compilation_eq : node.compilation = some compilation
  ip_eq : node.ip = 0
  begun_eq : node.begun = 1

theorem isUnstarted_load {source : String} (hassemble : node.assemble source = .ok compilation) :
    (node.load source).IsUnstarted compilation where
  compilation_eq := congrArg Except.toOption hassemble
  nextIp_eq := rfl
  executed_eq := rfl
  pending_eq := rfl

theorem IsUnstarted.stall (hunstarted : node.IsUnstarted compilation) :
    node.stall.IsUnstarted compilation :=
  ⟨hunstarted.compilation_eq, hunstarted.nextIp_eq, hunstarted.executed_eq, hunstarted.pending_eq⟩

/-- To end an operation of an earlier program starts nothing. -/
theorem IsUnstarted.resume (hunstarted : node.IsUnstarted compilation)
    (hresume : node.resume task fabric = .ok (progress, after, rest)) :
    after.IsUnstarted compilation := by
  obtain ⟨-, abandoned, rfl⟩ := (resumed_of_resume hresume).abandons hunstarted.pending_eq
  exact ⟨hunstarted.compilation_eq, hunstarted.nextIp_eq, hunstarted.executed_eq,
    hunstarted.pending_eq⟩

/-- The first step of a program is that of its first instruction. -/
theorem IsUnstarted.step (hunstarted : node.IsUnstarted compilation) (hprogram : compilation.program ≠ [])
    (hstep : node.step task fabric = .ok (progress, after, rest)) : after.HasStarted compilation := by
  have hnode : node.program ≠ [] := by
    rwa [program, hunstarted.compilation_eq]
  have hran := ran_of_step hnode hunstarted.pending_eq hstep
  refine ⟨hran.compilation_eq.trans hunstarted.compilation_eq,
    hran.ip_eq.trans hunstarted.nextIp_eq, ?_⟩
  rw [hran.begun_eq]
  exact congrArg (· + 1) hunstarted.executed_eq

/-- Going on with a step begins no other one. -/
theorem HasStarted.resume (hstarted : node.HasStarted compilation)
    (hresume : node.resume task fabric = .ok (progress, after, rest)) :
    after.HasStarted compilation := by
  have hbegun := (cycles_of_resume hresume).2.trans hstarted.begun_eq
  have hresumed := resumed_of_resume hresume
  by_cases hpending : node.pending = none
  · obtain ⟨-, abandoned, rfl⟩ := hresumed.abandons hpending
    exact ⟨hstarted.compilation_eq, hstarted.ip_eq, hbegun⟩
  · obtain ⟨-, hran⟩ := hresumed.ran hpending
    exact ⟨hran.compilation_eq.trans hstarted.compilation_eq, hran.ip_eq.trans hstarted.ip_eq, hbegun⟩

end Node

namespace Network

variable {network next last : Network m n} {task : Fin m} {node : Node n} {settled : ℕ}

/-- The visit of a node with a new program starts the program, unless an operation of an
earlier one is in the way. -/
theorem Sound.starts_of_visit {users : Fin n → Finset (Fin m)} (hsound : network.Sound users)
    (hnode : network.member task = .node node) (hunstarted : node.IsUnstarted compilation)
    (hprogram : compilation.program ≠ []) (hvisit : network.visit task = .ok (settled, next)) :
    ∃ after, next.member task = .node after ∧
      (after.HasStarted compilation ∨ after.IsUnstarted compilation ∧ node.abandoned ≠ none) := by
  rcases visit_cases hvisit with ⟨released, hrelease, hbegin⟩ | ⟨-, hpending, rfl⟩
  · obtain ⟨hmember, -⟩ := hsound.node_of_release hnode hrelease
    obtain ⟨⟨progress, member, fabric⟩, hstep, hnext⟩ := bind_eq_ok.mp hbegin
    rw [hmember] at hstep
    obtain ⟨⟨_, after, rest⟩, hafter, hpair⟩ := bind_eq_ok.mp hstep
    cases hpair
    -- giving the old operation up does not touch the new program
    have hreleased : Node.IsUnstarted { node with abandoned := none } compilation :=
      ⟨hunstarted.compilation_eq, hunstarted.nextIp_eq, hunstarted.executed_eq, hunstarted.pending_eq⟩
    refine ⟨after, ?_, Or.inl (hreleased.step hprogram hafter)⟩
    cases progress <;> cases hnext <;> exact member_put_self
  · refine ⟨node.stall, ?_, Or.inr ⟨hunstarted.stall, fun habandoned => ?_⟩⟩
    · rw [hnode]
      exact member_put_self
    · have hmember : (Participant.node node).Sound (task ∈ users ·) := hnode ▸ hsound.members task
      -- without an old operation the node would have been idle, and not stalled
      have hidle : network.engaged task = none := by
        rw [engaged, hnode]
        exact (Node.Sound.engagement_eq_none_iff hmember).mpr ⟨hunstarted.pending_eq, habandoned⟩
      rw [hsound.inFlight task, hidle] at hpending
      cases hpending

/-- A tick in lockstep starts a new program, unless it has to end an operation of an earlier
one, and then the next tick does. -/
theorem Sound.starts_of_lockstep (hsound : network.Sound everyone)
    (hdiscipline : network.discipline = .lockstep) (hnode : network.member task = .node node)
    (hunstarted : node.IsUnstarted compilation) (hprogram : compilation.program ≠ [])
    (htick : network.tick = .ok (settled, last)) :
    ∃ after, last.member task = .node after ∧ after.abandoned = none ∧
      (after.HasStarted compilation ∨ after.IsUnstarted compilation ∧ node.abandoned ≠ none) := by
  obtain ⟨begun, visited, resumed, hvisit, hsettle⟩ := parts_of_lockstep hdiscipline htick
  obtain ⟨before, count, between, hattends⟩ := exists_attends hvisit task
  obtain ⟨hbefore, -⟩ := hattends.sound hsound
  obtain ⟨reached, hreached, hstate⟩ := hbefore.starts_of_visit (hattends.member_before.trans hnode)
    hunstarted hprogram hattends.visit_eq
  -- after its visit, the node is at most resumed
  have hdrains := drains_of_settle hsettle
  have hmember := hattends.member_last.trans hreached
  have habandoned := hsound.abandoned_of_lockstep hdiscipline htick task
  rcases hstate with hstarted | ⟨hwaits, hold⟩
  · obtain ⟨after, hafter, hlast⟩ := hdrains.keeps_node Node.HasStarted.resume hmember hstarted
    rw [hafter] at habandoned
    exact ⟨after, hafter, habandoned, Or.inl hlast⟩
  · obtain ⟨after, hafter, hlast⟩ := hdrains.keeps_node Node.IsUnstarted.resume hmember hwaits
    rw [hafter] at habandoned
    exact ⟨after, hafter, habandoned, Or.inr ⟨hlast, hold⟩⟩

end Network

/-! ## Between two ticks -/

namespace Bench

open Network (Path)

/-- The operation is no tick, and the node with the task keeps its program. -/
def Operation.Spares (task : Fin m) : Operation m → Prop
  | .settle => True
  | .load other _ => other ≠ task
  | .tick | .run _ => False

variable {bench next : Bench m n} {task : Fin m} {operations : List (Operation m)}

/-- Nothing happens to a node between two ticks in lockstep, for nobody is ready then. -/
theorem IsSteady.member_of_spares (hsteady : bench.IsSteady)
    (hspares : ∀ operation ∈ operations, operation.Spares task)
    (hperform : bench.performAll operations = .ok next) :
    next.network.member task = bench.network.member task := by
  induction operations generalizing bench with
  | nil =>
      cases hperform
      rfl
  | cons operation rest ih =>
      obtain ⟨between, hbetween, hrest⟩ := bind_eq_ok.mp hperform
      have hspare := hspares operation List.mem_cons_self
      have hlater := fun later hmem => hspares later (List.mem_cons_of_mem operation hmem)
      cases operation with
      | tick => exact hspare.elim
      | run budget => exact hspare.elim
      | settle =>
          -- in lockstep nobody is left to be settled
          rw [perform, hsteady.settle] at hbetween
          cases hbetween
          exact ih hsteady hlater hrest
      | load other source =>
          cases hbetween
          have hloaded : (bench.load other source).IsSteady :=
            ⟨hsteady.discipline_eq, hsteady.ready_eq⟩
          exact (ih hloaded hlater hrest).trans (Network.member_load_of_ne hspare.symm)

/-- The node with the task begins the program of the compilation in the next tick or in the
one after it, whatever is done between the ticks that leaves its program alone. -/
def StartsSoon (bench : Bench m n) (task : Fin m) (compilation : Compilation) : Prop :=
  ∀ first second : List (Operation m), (∀ operation ∈ first ++ second, operation.Spares task) →
    ∃ start next between last early late, bench.performAll first = .ok start ∧
      start.tick = .ok next ∧ next.performAll second = .ok between ∧ between.tick = .ok last ∧
      next.network.member task = .node early ∧ last.network.member task = .node late ∧
      (early.HasStarted compilation ∨ early.IsUnstarted compilation ∧ late.HasStarted compilation)

/-- The bench is sound and between two ticks in lockstep. -/
structure IsBetweenTicks (bench : Bench m n) : Prop extends bench.IsSteady where
  sound : bench.network.Sound Network.everyone

theorem IsBetweenTicks.performAll (hbench : bench.IsBetweenTicks)
    (hperform : bench.performAll operations = .ok next) : next.IsBetweenTicks := by
  obtain ⟨hpath, hquiet⟩ : Path (fun _ => True) .resuming _ _ .resuming next.network ∧ _ :=
    path_of_performAll (fun _ => hbench.ready_eq) (fun _ _ _ => trivial) hperform
  have hdiscipline := hpath.discipline_eq.trans hbench.discipline_eq
  exact ⟨⟨hdiscipline, hquiet hdiscipline⟩,
    (performAll_sound hbench.sound operations).of_ok hperform⟩

theorem IsBetweenTicks.tick (hbench : bench.IsBetweenTicks) :
    ∃ settled next, bench.tick = .ok next ∧ bench.network.tick = .ok (settled, next.network) ∧
      next.IsBetweenTicks := by
  obtain ⟨⟨settled, network⟩, hnetwork, hsound⟩ := hbench.sound.tick
  have htick : bench.tick = .ok { bench with network, ticks := bench.ticks + 1 } := by
    rw [Bench.tick, hnetwork]
    rfl
  have hsingle : bench.performAll [.tick] = .ok _ := bind_eq_ok.mpr ⟨_, htick, rfl⟩
  exact ⟨settled, _, htick, hnetwork, hbench.performAll hsingle⟩

/-- A node that has not begun its program begins it soon. -/
theorem IsBetweenTicks.startsSoon {node : Node n} (hbench : bench.IsBetweenTicks)
    (hnode : bench.network.member task = .node node) (hunstarted : node.IsUnstarted compilation)
    (hprogram : compilation.program ≠ []) : bench.StartsSoon task compilation := by
  intro first second hspares
  obtain ⟨start, hstart, -⟩ := performAll_sound hbench.sound first
  have hatStart := hbench.performAll hstart
  have hstartNode := (hbench.member_of_spares
    (fun operation hmem => hspares operation (List.mem_append_left _ hmem)) hstart).trans hnode
  obtain ⟨settled, next, hnext, htick, hatNext⟩ := hatStart.tick
  obtain ⟨early, hearly, habandoned, hstate⟩ := hatStart.sound.starts_of_lockstep
    hatStart.discipline_eq hstartNode hunstarted hprogram htick
  obtain ⟨between, hbetween, -⟩ := performAll_sound hatNext.sound second
  have hatBetween := hatNext.performAll hbetween
  have hbetweenNode := (hatNext.member_of_spares
    (fun operation hmem => hspares operation (List.mem_append_right _ hmem)) hbetween).trans hearly
  obtain ⟨resettled, last, hlast, hretick, -⟩ := hatBetween.tick
  rcases hstate with hstarted | ⟨hwaits, -⟩
  · obtain ⟨late, hlate, -⟩ := hatBetween.sound.cycles_of_tick hbetweenNode hretick
    exact ⟨start, next, between, last, early, late, hstart, hnext, hbetween, hlast, hearly, hlate,
      Or.inl hstarted⟩
  -- nothing of an earlier program is left in the second tick
  · obtain ⟨late, hlate, -, hlater⟩ := hatBetween.sound.starts_of_lockstep
      hatBetween.discipline_eq hbetweenNode hwaits hprogram hretick
    have hstarted := hlater.resolve_right fun ⟨_, hold⟩ => hold habandoned
    exact ⟨start, next, between, last, early, late, hstart, hnext, hbetween, hlast, hearly, hlate,
      Or.inr ⟨hwaits, hstarted⟩⟩

/-! ## New programs in lockstep -/

variable {wiring : Wiring n} {suite : Suite} {before : List (Operation wiring.size)}

theorem isBetweenTicks_of_performAll {bench : Bench wiring.size n}
    (hfresh : ∀ node ∈ wiring.nodes, node.IsFresh)
    (hroom : ∀ k, wiring.capacities.get k + wiring.size ≤ 2 ^ 63 - 1)
    (hperform : (ofWiring wiring suite .lockstep).performAll before = .ok bench) :
    bench.IsBetweenTicks :=
  ⟨isSteady_of_performAll hperform,
    (performAll_sound (sound_ofWiring hfresh hroom suite .lockstep) before).of_ok hperform⟩

/-- In lockstep, whatever has been done with a bench and whatever programs its nodes have got,
the next tick ends without an abandoned operation.  A program that is loaded now starts in
the next tick or in the one after it. -/
theorem startsSoon_of_load {bench : Bench wiring.size n}
    (hfresh : ∀ node ∈ wiring.nodes, node.IsFresh)
    (hroom : ∀ k, wiring.capacities.get k + wiring.size ≤ 2 ^ 63 - 1)
    (hperform : (ofWiring wiring suite .lockstep).performAll before = .ok bench) :
    (∃ next, bench.tick = .ok next ∧ ∀ task node, next.network.member task = .node node →
      node.abandoned = none) ∧
    ∀ task, task.val < wiring.nodes.length → ∃ node, bench.network.member task = .node node ∧
      ∀ source compilation, node.assemble source = .ok compilation → compilation.program ≠ [] →
        (bench.load task source).StartsSoon task compilation := by
  have hbench := isBetweenTicks_of_performAll hfresh hroom hperform
  constructor
  · obtain ⟨settled, next, hnext, htick, -⟩ := hbench.tick
    refine ⟨next, hnext, fun task node hnode => ?_⟩
    have habandoned := hbench.sound.abandoned_of_lockstep hbench.discipline_eq htick task
    rwa [hnode] at habandoned
  · intro task htask
    obtain ⟨node, hnode⟩ := exists_node_of_performAll htask hperform
    refine ⟨node, hnode, fun source compilation hassemble hprogram => ?_⟩
    -- loading does not disturb the rest between two ticks
    have hloaded : (bench.load task source).IsBetweenTicks :=
      ⟨⟨hbench.discipline_eq, hbench.ready_eq⟩,
        hbench.sound.load fun _ _ _ _ _ _ => Finset.mem_univ task⟩
    have hself : (bench.load task source).network.member task = .node (node.load source) := by
      refine Network.member_load_self.trans ?_
      rw [hnode]
      rfl
    exact hloaded.startsSoon hself (Node.isUnstarted_load hassemble) hprogram

/-- The node of the relay gets another program while it waits for a value. -/
theorem startsSoon_relay : (∀ node ∈ relay.nodes, node.IsFresh) ∧
    (∀ k, relay.capacities.get k + relay.size ≤ 2 ^ 63 - 1) ∧
    ∃ bench, (ofWiring relay ⟨⟨[(0, [7, 8])]⟩, ⟨[(0, [7, 8])]⟩⟩ .lockstep).performAll
        [.tick, .tick, .tick] = .ok bench ∧
      (∃ next, bench.tick = .ok next ∧ ∀ task node, next.network.member task = .node node →
        node.abandoned = none) ∧
      (bench.load ⟨0, by decide⟩ "NOP").StartsSoon ⟨0, by decide⟩ ⟨[.plain .nop], [0]⟩ := by
  have hroom : ∀ k, relay.capacities.get k + relay.size ≤ 2 ^ 63 - 1 := by decide
  obtain ⟨bench, hperform, -⟩ := performAll_sound
    (sound_ofWiring isFresh_relay hroom ⟨⟨[(0, [7, 8])]⟩, ⟨[(0, [7, 8])]⟩⟩ .lockstep)
    [.tick, .tick, .tick]
  obtain ⟨hrid, hstarts⟩ := startsSoon_of_load isFresh_relay hroom hperform
  obtain ⟨node, -, hsoon⟩ := hstarts ⟨0, by decide⟩
    (show (⟨0, by decide⟩ : Fin relay.size).val < relay.nodes.length by decide)
  have hcompile : Assembly.compile "NOP" = .ok ⟨[.plain .nop], [0]⟩ :=
    (Assembly.compile_text_eq [.plain .nop]).trans
      (Assembly.compileText_written (by simp [Instruction.FitsWord, Instruction.jumpTarget?]))
  have hassemble : node.assemble "NOP" = .ok ⟨[.plain .nop], [0]⟩ := by
    rw [Node.assemble, hcompile]
    rfl
  exact ⟨isFresh_relay, hroom, bench, hperform, hrid, hsoon "NOP" _ hassemble (by simp)⟩

end Bench

end NodeGrid

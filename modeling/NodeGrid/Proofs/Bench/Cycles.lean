import NodeGrid.Node.Report
import NodeGrid.Proofs.Bench.Interpretation
import NodeGrid.Proofs.Decimal.Share
import NodeGrid.Proofs.Network.Cycles

/-!
# The cycles of the nodes on a bench

Only a tick asks the nodes for cycles, each for one.  So the cycles of a node run with the
ticks of the bench: what it was asked for before its program was loaded is forgotten, and
from then on the two differ by a constant (`IsTimed`).

What its task does on the bench is made of its moves, so that the account of the node
(`Node.Accounted`) stays right.
-/

namespace NodeGrid

variable {m n : ℕ}

/-- The participant is a node whose account is right. -/
def Participant.Accounted (deeds : List (Deed n)) (participant : Participant n) : Prop :=
  ∃ node, participant = .node node ∧ node.Accounted deeds

theorem Participant.Accounted.moves {τ : Type} [DecidableEq τ] {task : τ}
    {participant after : Participant n} {deeds more : List (Deed n)}
    (haccounted : participant.Accounted deeds) (hmoves : participant.Moves task more after) :
    after.Accounted (deeds ++ more) := by
  obtain ⟨node, rfl, hnode⟩ := haccounted
  obtain ⟨next, rfl, hnext⟩ := hmoves.node
  exact ⟨next, rfl, hnode.moves hnext⟩

theorem Node.IsFresh.accounted {node : Node n} (hfresh : node.IsFresh) : node.Accounted [] := by
  rcases hfresh with ⟨name, ports, rfl | ⟨source, rfl⟩⟩
  · exact ⟨rfl, Nat.le_refl 0, fun hpending => absurd rfl hpending, fun _ => by simp⟩
  · exact accounted_load _ source

theorem Node.IsFresh.requested_eq {node : Node n} (hfresh : node.IsFresh) : node.requested = 0 := by
  rcases hfresh with ⟨name, ports, rfl | ⟨source, rfl⟩⟩ <;> rfl

/-- What the counters of a node mean that has done these deeds in this number of ticks since
its program was loaded. -/
structure Node.CountsCycles (node : Node n) (ticks : ℕ) (deeds : List (Deed n)) : Prop where
  requested_eq : node.requested = ticks
  /-- The steps of its program that are over; without instructions, there are none. -/
  executed_eq : node.executed = if node.program = [] then 0 else settledSteps deeds
  executed_le : node.executed + (if node.pending.isSome then 1 else 0) ≤ node.requested
  idleness : ∀ idleness, node.idleness? = some idleness →
    (Decimal.Binary.ofQuotient node.executed node.requested).toRat ≤ 1 ∧
      0 ≤ idleness.toRat ∧ idleness.toRat ≤ 1

theorem Node.Accounted.countsCycles {node : Node n} {deeds : List (Deed n)}
    (haccounted : node.Accounted deeds) : node.CountsCycles node.requested deeds where
  requested_eq := rfl
  executed_eq := haccounted.executed_eq
  executed_le := by
    have hle := haccounted.begun_le
    rw [begun] at hle
    cases hpending : node.pending <;> simpa [hpending] using hle
  idleness := by
    intro idleness hidleness
    have hle : node.executed ≤ node.requested :=
      (Nat.le_add_right _ _).trans haccounted.begun_le
    unfold idleness? at hidleness
    split at hidleness
    · cases hidleness
    · cases hidleness
      exact ⟨Decimal.Binary.ofQuotient_le_one hle, Decimal.Binary.toRat_nonneg _,
        Decimal.Binary.complement_le_one _⟩

namespace Bench

open Network (Path)

variable {bench next last : Bench m n} {task : Fin m} {users : Fin n → Finset (Fin m)} {start : ℕ}

/-! ## Cycles and ticks -/

/-- The node with the task was asked for a cycle in every tick since the given one. -/
def IsTimed (bench : Bench m n) (task : Fin m) (start : ℕ) : Prop :=
  ∃ node, bench.network.member task = .node node ∧ node.requested + start = bench.ticks

theorem IsTimed.tick (htimed : bench.IsTimed task start) (hsound : bench.network.Sound users)
    (htick : bench.tick = .ok next) : next.IsTimed task start := by
  obtain ⟨node, hnode, hstart⟩ := htimed
  obtain ⟨⟨settled, network⟩, hnetwork, hnext⟩ := bind_eq_ok.mp htick
  cases hnext
  obtain ⟨after, hafter, hrequested⟩ := hsound.cycles_of_tick hnode hnetwork
  refine ⟨after, hafter, ?_⟩
  change after.requested + start = bench.ticks + 1
  omega

theorem IsTimed.settle (htimed : bench.IsTimed task start) (hsettle : bench.settle = .ok next) :
    next.IsTimed task start := by
  obtain ⟨node, hnode, hstart⟩ := htimed
  obtain ⟨⟨settled, network⟩, hnetwork, hnext⟩ := bind_eq_ok.mp hsettle
  cases hnext
  obtain ⟨after, hafter, hrequested, -⟩ := (Network.drains_of_settle hnetwork).cycles hnode
  exact ⟨after, hafter, hrequested ▸ hstart⟩

theorem IsTimed.tickUpTo {budget : ℕ} (htimed : bench.IsTimed task start)
    (hsound : bench.network.Sound users) (hended : bench.tickUpTo budget = .ok next) :
    next.IsTimed task start := by
  induction budget generalizing bench with
  | zero =>
      cases hended
      exact htimed
  | succ budget ih =>
      rw [Bench.tickUpTo] at hended
      split at hended
      · cases hended
        exact htimed
      · obtain ⟨between, htick, hrest⟩ := bind_eq_ok.mp hended
        exact ih (htimed.tick hsound htick) ((tick_sound hsound).of_ok htick) hrest

theorem IsTimed.perform {operation : Operation m} (htimed : bench.IsTimed task start)
    (hsound : bench.network.Sound users) (hkeep : ∀ source, operation ≠ .load task source)
    (hperform : bench.perform operation = .ok next) : next.IsTimed task start := by
  cases operation with
  | tick => exact htimed.tick hsound hperform
  | settle => exact htimed.settle hperform
  | run budget =>
      obtain ⟨⟨count, ran⟩, hrun, hpair⟩ := bind_eq_ok.mp hperform
      cases hpair
      obtain ⟨ended, hended, hrest⟩ := bind_eq_ok.mp hrun
      obtain ⟨settled, hsettled, hpair⟩ := bind_eq_ok.mp hrest
      cases hpair
      exact (htimed.tickUpTo hsound hended).settle hsettled
  | load other source =>
      cases hperform
      obtain ⟨node, hnode, hstart⟩ := htimed
      have hother : task ≠ other := fun heq => hkeep source (heq ▸ rfl)
      exact ⟨node, (Network.member_load_of_ne hother).trans hnode, hstart⟩

theorem IsTimed.performAll {operations : List (Operation m)} (htimed : bench.IsTimed task start)
    (hsound : bench.network.Sound Network.everyone)
    (hkeep : ∀ source, .load task source ∉ operations)
    (hperform : bench.performAll operations = .ok last) : last.IsTimed task start := by
  induction operations generalizing bench with
  | nil =>
      cases hperform
      exact htimed
  | cons operation rest ih =>
      obtain ⟨next, hnext, hrest⟩ := bind_eq_ok.mp hperform
      have hfirst : ∀ source, operation ≠ .load task source := fun source heq =>
        hkeep source (heq ▸ List.mem_cons_self)
      have hload : ∀ other source, operation = .load other source →
          (bench.network.load other source).Sound Network.everyone := fun other source _ =>
        hsound.load fun _ _ _ _ _ _ => Finset.mem_univ other
      exact ih (htimed.perform hsound hfirst hnext) ((perform_sound hsound operation hload).of_ok hnext)
        (fun source hmem => hkeep source (List.mem_cons_of_mem _ hmem)) hrest

/-! ## Since the last program -/

section Start

variable {wiring : Wiring n} {suite : Suite} {discipline : Discipline}
  {before : List (Operation wiring.size)} {bench : Bench wiring.size n} {task : Fin wiring.size}

/-- A node that has just got its program, or has it from the start, starts to count. -/
theorem exists_accounted (hfresh : ∀ node ∈ wiring.nodes, node.IsFresh)
    (hperform : (ofWiring wiring suite discipline).performAll before = .ok bench)
    (htask : task.val < wiring.nodes.length)
    (hloaded : before = [] ∨ ∃ earlier source, before = earlier ++ [.load task source]) :
    ∃ node, bench.network.member task = .node node ∧ node.Accounted [] ∧ node.requested = 0 := by
  rcases hloaded with rfl | ⟨earlier, source, rfl⟩
  · obtain ⟨first, hfirst, hmember⟩ := exists_node_ofWiring suite discipline htask
    cases hperform
    exact ⟨first, hmember, (hfresh first hfirst).accounted, (hfresh first hfirst).requested_eq⟩
  · obtain ⟨between, hbetween, hload⟩ := performAll_append.mp hperform
    cases hload
    obtain ⟨node, hnode⟩ := exists_node_of_performAll htask hbetween
    have hself : (between.network.load task source).member task = _ := Network.member_load_self
    rw [hnode] at hself
    exact ⟨node.load source, hself, node.accounted_load source, rfl⟩

/-- The counters of a node say what they mean, whatever has been done with the bench since the
node got its program, which it got last or has had from the start.  In lockstep, another tick
completes at most one more of its steps. -/
theorem cycles_of_performAll (hfresh : ∀ node ∈ wiring.nodes, node.IsFresh)
    (hroom : ∀ k, wiring.capacities.get k + wiring.size ≤ 2 ^ 63 - 1)
    (hperform : (ofWiring wiring suite discipline).performAll before = .ok bench)
    (htask : task.val < wiring.nodes.length)
    (hloaded : before = [] ∨ ∃ earlier source, before = earlier ++ [.load task source])
    {operations : List (Operation wiring.size)} (hkeep : ∀ source, .load task source ∉ operations) :
    ∃ last node, bench.performAll operations = .ok last ∧
      last.network.member task = .node node ∧ bench.ticks ≤ last.ticks ∧
      node.CountsCycles (last.ticks - bench.ticks)
        (deedsOf task (bench.performAllTrace operations)) ∧
      (discipline = .lockstep → ∃ next after, last.tick = .ok next ∧
        next.network.member task = .node after ∧ after.executed ≤ node.executed + 1) := by
  have hsound := (performAll_sound (sound_ofWiring hfresh hroom suite discipline) before).of_ok
    hperform
  obtain ⟨start, hstart, haccounted, hrequested⟩ :=
    exists_accounted hfresh hperform htask hloaded
  have hothers : ∀ other source, .load other source ∈ operations → other ≠ task :=
    fun other source hmem heq => hkeep source (heq ▸ hmem)
  obtain ⟨last, hlast, hsoundLast⟩ := performAll_sound hsound operations
  obtain ⟨hpath, -⟩ : Path (· ≠ task) .resuming bench.network _ .resuming last.network ∧ _ :=
    path_of_performAll (isQuiet_of_performAll hperform) hothers hlast
  -- the deeds are counted from here on, and so are the ticks
  have hbegun : (bench.network.member task).Accounted [] := ⟨start, hstart, haccounted⟩
  obtain ⟨node, hnode, hcounts⟩ := hpath.keeps_member Participant.Accounted.moves hsound
    (fun other _ _ _ => Finset.mem_univ other) (not_not_intro rfl) hbegun
  have htimed : bench.IsTimed task bench.ticks := ⟨start, hstart, by omega⟩
  obtain ⟨_, hsame, hticks⟩ := htimed.performAll hsound hkeep hlast
  rw [hnode] at hsame
  cases hsame
  refine ⟨last, node, hlast, hnode, hticks ▸ Nat.le_add_left _ _, ?_, fun hlockstep => ?_⟩
  · rw [← hticks, Nat.add_sub_cancel]
    exact Node.Accounted.countsCycles hcounts
  · -- in lockstep, a visit can complete one step at most
    have hdiscipline : last.network.discipline = .lockstep :=
      (hpath.discipline_eq.trans (path_ofWiring hperform).discipline_eq).trans hlockstep
    obtain ⟨⟨settled, network⟩, hnetwork, -⟩ := hsoundLast.tick
    obtain ⟨after, hafter, hle⟩ := hsoundLast.executed_of_lockstep hdiscipline hnode hnetwork
    refine ⟨{ last with network, ticks := last.ticks + 1 }, after, ?_, hafter, hle⟩
    rw [tick, hnetwork]
    rfl

/-- The node of the relay is given its program again while it waits for a third value. -/
theorem cycles_relay : (∀ node ∈ relay.nodes, node.IsFresh) ∧
    (∀ k, relay.capacities.get k + relay.size ≤ 2 ^ 63 - 1) ∧
    ∃ bench last node, (ofWiring relay ⟨⟨[(0, [7, 8])]⟩, ⟨[(0, [7, 8])]⟩⟩ .lockstep).performAll
        [.tick, .tick, .tick, .load ⟨0, by decide⟩ "MOV UP, DOWN"] = .ok bench ∧
      bench.abandoned? ⟨0, by decide⟩ = some (.read .up) ∧
      bench.performAll [.tick, .settle, .run 5] = .ok last ∧
      last.network.member ⟨0, by decide⟩ = .node node ∧ bench.ticks ≤ last.ticks ∧
      node.CountsCycles (last.ticks - bench.ticks)
        (deedsOf ⟨0, by decide⟩ (bench.performAllTrace [.tick, .settle, .run 5])) ∧
      ∃ next after, last.tick = .ok next ∧
        next.network.member ⟨0, by decide⟩ = .node after ∧ after.executed ≤ node.executed + 1 := by
  have hroom : ∀ k, relay.capacities.get k + relay.size ≤ 2 ^ 63 - 1 := by decide
  -- the load abandons the third read, and counting starts over
  have hrun : ((ofWiring relay ⟨⟨[(0, [7, 8])]⟩, ⟨[(0, [7, 8])]⟩⟩ .lockstep).performAll
      [.tick, .tick, .tick, .load ⟨0, by decide⟩ "MOV UP, DOWN"]).toOption.any (fun bench =>
        bench.abandoned? ⟨0, by decide⟩ == some (.read .up)) = true := by
    decide +kernel
  obtain ⟨bench, hperform, hwaits⟩ := exists_ok_of_any hrun
  have hkeep : ∀ source, Operation.load (⟨0, by decide⟩ : Fin relay.size) source ∉
      [.tick, .settle, .run 5] := by simp
  obtain ⟨last, node, hlast, hnode, hle, hcounts, hnext⟩ :=
    cycles_of_performAll isFresh_relay hroom hperform
      (show (⟨0, by decide⟩ : Fin relay.size).val < relay.nodes.length by decide)
      (Or.inr ⟨[.tick, .tick, .tick], "MOV UP, DOWN", rfl⟩) hkeep
  exact ⟨isFresh_relay, hroom, bench, last, node, hperform, eq_of_beq hwaits, hlast, hnode, hle,
    hcounts, hnext rfl⟩

end Start

end Bench

end NodeGrid

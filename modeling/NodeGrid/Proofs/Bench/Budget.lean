import NodeGrid.Proofs.Bench.Confluence
import NodeGrid.Proofs.Network.Ageing

/-!
# Budgets of ticks

A run ends by settling, even if its budget has been used up before it is complete.  In
lockstep nothing is left ready after a tick, so there is nothing to settle then
(`IsSteady.run_eq`), and a run that has been interrupted can be taken up again: two runs
one after the other are one run with both budgets (`IsSteady.run_add`).  That does not
depend on whether anything faults.

A run stops at the first number of ticks after which the bench is complete, or at its
budget (`Stops`).  With more to spend, an evaluation is the old one followed by another
run, in which sinks only add to what they hold and sources only send
(`Network.Path.ages`).  All of this is put together in `splits_budget`.
-/

namespace NodeGrid

/-- What has been collected with a budget of ticks, and what with the same or a larger
one. -/
structure Evaluation.Extends (budget : ℕ) (earlier later : Evaluation) : Prop where
  ticks_eq : earlier.ticks = min budget later.ticks
  outputs : List.Forall₂ (fun few many => few.1 = many.1 ∧ few.2 <+: many.2)
    earlier.outputs later.outputs
  backlog : List.Forall₂ (fun many few => many.1 = few.1 ∧ few.2 ≤ many.2)
    earlier.backlog later.backlog

namespace Bench

variable {m n : ℕ}

/-! ## Benches in lockstep -/

/-- The bench runs in lockstep, and nothing is left to settle. -/
structure IsSteady (bench : Bench m n) : Prop where
  discipline_eq : bench.network.discipline = .lockstep
  ready_eq : bench.network.fabric.ready = []

variable {bench next last : Bench m n} {budget count : ℕ}

theorem IsSteady.tickUpTo (hsteady : bench.IsSteady) (hended : bench.tickUpTo budget = .ok next) :
    next.IsSteady := by
  obtain ⟨hpath, hquiet⟩ : Network.Path (fun _ => False) .resuming bench.network _ .resuming _ ∧ _ :=
    path_of_tickUpTo (fun _ => hsteady.ready_eq) hended
  have hdiscipline := hpath.discipline_eq.trans hsteady.discipline_eq
  exact ⟨hdiscipline, hquiet hdiscipline⟩

theorem IsSteady.settle (hsteady : bench.IsSteady) : bench.settle = .ok bench := by
  rw [Bench.settle, (Network.settle_of_ready_nil hsteady.ready_eq).1]
  rfl

/-- Whatever is done with a bench in lockstep, nothing is left to settle. -/
theorem isSteady_of_performAll {wiring : Wiring n} {suite : Suite}
    {operations : List (Operation wiring.size)} {bench : Bench wiring.size n}
    (hperform : (ofWiring wiring suite .lockstep).performAll operations = .ok bench) :
    bench.IsSteady := by
  obtain ⟨hpath, hquiet⟩ :=
    path_of_performAll (isQuiet_ofWiring wiring suite .lockstep) (fun _ _ _ => trivial) hperform
  have hdiscipline : bench.network.discipline = .lockstep := hpath.discipline_eq
  exact ⟨hdiscipline, hquiet hdiscipline⟩

/-! ## When a run stops -/

/-- A bench that is complete does not tick. -/
theorem tickUpTo_of_isComplete (hcomplete : bench.isComplete = true) (budget : ℕ) :
    bench.tickUpTo budget = .ok bench := by
  cases budget with
  | zero => rfl
  | succ budget => rw [tickUpTo, if_pos hcomplete]

theorem ticks_of_tick (htick : bench.tick = .ok next) : next.ticks = bench.ticks + 1 := by
  obtain ⟨outcome, -, hnext⟩ := bind_eq_ok.mp htick
  cases hnext
  rfl

/-- The run takes this number of ticks: the budget, or fewer if the bench is complete
after them and was not before. -/
structure Stops (bench : Bench m n) (budget count : ℕ) (last : Bench m n) : Prop where
  count_le : count ≤ budget
  ticks_eq : last.ticks = bench.ticks + count
  performAll_eq : bench.performAll (List.replicate count .tick) = .ok last
  incomplete : ∀ fewer < count, ∃ moment,
    bench.performAll (List.replicate fewer .tick) = .ok moment ∧ moment.isComplete = false
  spent_or_complete : count = budget ∨ last.isComplete = true

theorem exists_stops_of_tickUpTo (hended : bench.tickUpTo budget = .ok last) :
    ∃ count, bench.Stops budget count last := by
  induction budget generalizing bench with
  | zero =>
      cases hended
      exact ⟨0, Nat.le_refl _, rfl, rfl, fun _ hfewer => absurd hfewer (Nat.not_lt_zero _),
        Or.inl rfl⟩
  | succ budget ih =>
      by_cases hcomplete : bench.isComplete = true
      · rw [tickUpTo_of_isComplete hcomplete] at hended
        cases hended
        exact ⟨0, Nat.zero_le _, rfl, rfl, fun _ hfewer => absurd hfewer (Nat.not_lt_zero _),
          Or.inr hcomplete⟩
      · rw [tickUpTo, if_neg hcomplete] at hended
        obtain ⟨next, htick, hrest⟩ := bind_eq_ok.mp hended
        obtain ⟨count, hstops⟩ := ih hrest
        -- the ticks that were counted later are counted from here, after this one
        have hfirst : ∀ rest, bench.performAll (.tick :: rest) = next.performAll rest := by
          intro rest
          rw [performAll, perform, htick, ok_bind]
        refine ⟨count + 1, Nat.succ_le_succ hstops.count_le, ?_, ?_, ?_, ?_⟩
        · rw [hstops.ticks_eq, ticks_of_tick htick]
          omega
        · rw [List.replicate_succ, hfirst, hstops.performAll_eq]
        · intro fewer hfewer
          cases fewer with
          | zero => exact ⟨bench, rfl, Bool.eq_false_iff.mpr hcomplete⟩
          | succ fewer =>
              rw [List.replicate_succ, hfirst]
              exact hstops.incomplete fewer (Nat.lt_of_succ_lt_succ hfewer)
        · exact hstops.spent_or_complete.imp_left fun hspent => by rw [hspent]

theorem stops_of_tickUpTo (hended : bench.tickUpTo budget = .ok last) :
    bench.Stops budget (last.ticks - bench.ticks) last := by
  obtain ⟨count, hstops⟩ := exists_stops_of_tickUpTo hended
  rwa [hstops.ticks_eq, Nat.add_sub_cancel_left]

/-- A bench that is complete is not run any further. -/
theorem Stops.eq_zero (hstops : bench.Stops budget count last)
    (hcomplete : bench.isComplete = true) : count = 0 := by
  rcases Nat.eq_zero_or_pos count with hzero | hpositive
  · exact hzero
  · obtain ⟨moment, hmoment, hincomplete⟩ := hstops.incomplete 0 hpositive
    cases hmoment
    rw [hcomplete] at hincomplete
    cases hincomplete

/-! ## Two runs are one -/

theorem tickUpTo_add (bench : Bench m n) (first second : ℕ) :
    bench.tickUpTo (first + second) =
      bench.tickUpTo first >>= fun between => between.tickUpTo second := by
  induction first generalizing bench with
  | zero =>
      rw [Nat.zero_add]
      rfl
  | succ first ih =>
      by_cases hcomplete : bench.isComplete = true
      · -- a bench that is complete stops at any budget
        simp only [tickUpTo_of_isComplete hcomplete, ok_bind]
      · have hticks : ∀ budget, bench.tickUpTo (budget + 1) =
            bench.tick >>= fun next => next.tickUpTo budget := by
          intro budget
          rw [tickUpTo, if_neg hcomplete]
        calc bench.tickUpTo (first + 1 + second)
            = bench.tick >>= fun next => next.tickUpTo (first + second) := by
              rw [Nat.add_right_comm, hticks]
          _ = bench.tick >>= fun next =>
                next.tickUpTo first >>= fun between => between.tickUpTo second := by
              simp only [ih]
          _ = bench.tickUpTo (first + 1) >>= fun between => between.tickUpTo second := by
              rw [hticks, bind_assoc]

/-- In lockstep, a run is no more than its ticks. -/
theorem IsSteady.run_eq (hsteady : bench.IsSteady) (budget : ℕ) :
    bench.run budget =
      bench.tickUpTo budget >>= fun ended => .ok (ended.ticks - bench.ticks, ended) := by
  rw [run]
  cases hended : bench.tickUpTo budget with
  | error broken => rfl
  | ok ended =>
      rw [ok_bind, ok_bind, (hsteady.tickUpTo hended).settle]
      rfl

theorem IsSteady.of_run (hsteady : bench.IsSteady) (hrun : bench.run budget = .ok (count, last)) :
    last.IsSteady := by
  rw [hsteady.run_eq] at hrun
  obtain ⟨ended, hended, hpair⟩ := bind_eq_ok.mp hrun
  cases hpair
  exact hsteady.tickUpTo hended

theorem IsSteady.run_add (hsteady : bench.IsSteady) (first second : ℕ) :
    (do
      let (ran, between) ← bench.run first
      let (more, last) ← between.run second
      return (ran + more, last)) = bench.run (first + second) := by
  rw [hsteady.run_eq, hsteady.run_eq, tickUpTo_add]
  cases hfirst : bench.tickUpTo first with
  | error broken => rfl
  | ok between =>
      simp only [ok_bind, (hsteady.tickUpTo hfirst).run_eq]
      cases hsecond : between.tickUpTo second with
      | error broken => rfl
      | ok last =>
          -- `run` counts ticks by a difference, and the two differences add up
          have hearlier := (stops_of_tickUpTo hfirst).ticks_eq
          have hlater := (stops_of_tickUpTo hsecond).ticks_eq
          have hticks : between.ticks - bench.ticks + (last.ticks - between.ticks) =
              last.ticks - bench.ticks := by omega
          simp only [ok_bind, hticks]
          rfl

theorem IsSteady.stops (hsteady : bench.IsSteady) (hrun : bench.run budget = .ok (count, last)) :
    bench.Stops budget count last := by
  rw [hsteady.run_eq] at hrun
  obtain ⟨ended, hended, hpair⟩ := bind_eq_ok.mp hrun
  cases hpair
  exact stops_of_tickUpTo hended

/-! ## Evaluations -/

/-- Later, sinks hold more and sources have less to send. -/
theorem extends_of_ages (hages : ∀ task, (bench.network.member task).Ages (last.network.member task))
    (hticks : bench.ticks = min budget last.ticks) :
    bench.evaluation.Extends budget last.evaluation where
  ticks_eq := hticks
  outputs := by
    have hsinks : List.Forall₂ (fun store last => store.results <+: last.results) bench.sinks
        last.sinks := forall₂_filterMap_members rfl fun p q hpq => by
      obtain rfl := Fin.ext hpq
      exact (hages p).rel_sink?
    exact forall₂_mapIdx hsinks fun port store later hprefix => ⟨rfl, hprefix⟩
  backlog := by
    have hsources : List.Forall₂ (fun feed last => last.backlog ≤ feed.backlog) bench.sources
        last.sources := forall₂_filterMap_members rfl fun p q hpq => by
      obtain rfl := Fin.ext hpq
      exact (hages p).rel_source?
    exact forall₂_mapIdx hsources fun port feed later hless => ⟨rfl, hless⟩

theorem IsSteady.ages_of_run (hsteady : bench.IsSteady)
    (hrun : bench.run budget = .ok (count, last)) (task : Fin m) :
    (bench.network.member task).Ages (last.network.member task) := by
  have hstops := hsteady.stops hrun
  obtain ⟨hpath, -⟩ :=
    path_of_performAll (fun _ => hsteady.ready_eq) (fun _ _ _ => trivial) hstops.performAll_eq
  exact hpath.ages task

variable {wiring : Wiring n} {suite : Suite}

/-- A larger budget takes up the evaluation where a smaller one has left it. -/
theorem exists_evaluate {larger : ℕ} (hle : budget ≤ larger) {later : Evaluation}
    (hlater : wiring.evaluate suite larger = .ok later) :
    ∃ earlier, wiring.evaluate suite budget = .ok earlier ∧ earlier.Extends budget later := by
  have hsteady : (ofWiring wiring suite .lockstep).IsSteady := ⟨rfl, rfl⟩
  obtain ⟨⟨total, last⟩, hrun, hevaluation⟩ := bind_eq_ok.mp hlater
  cases hevaluation
  -- the larger budget is spent in two parts
  rw [show larger = budget + (larger - budget) by omega, ← hsteady.run_add] at hrun
  obtain ⟨⟨count, between⟩, hfirst, hrest⟩ := bind_eq_ok.mp hrun
  obtain ⟨⟨more, ended⟩, hsecond, hpair⟩ := bind_eq_ok.mp hrest
  cases hpair
  have hstops := hsteady.stops hfirst
  have hbetween := hsteady.of_run hfirst
  have hstopsLater := hbetween.stops hsecond
  have hticks : between.ticks = min budget last.ticks := by
    have hstart : (ofWiring wiring suite .lockstep).ticks = 0 := rfl
    have hearlier := hstops.ticks_eq
    have hafter := hstopsLater.ticks_eq
    have hcount := hstops.count_le
    rcases hstops.spent_or_complete with hspent | hcomplete
    · omega
    · -- complete before the budget was spent, so the rest of it runs no tick
      have hnone := hstopsLater.eq_zero hcomplete
      omega
  exact ⟨between.evaluation, bind_eq_ok.mpr ⟨_, hfirst, rfl⟩,
    extends_of_ages (hbetween.ages_of_run hsecond) hticks⟩

/-- In lockstep, a budget can be spent in parts: two runs are one, a run stops as soon as
the bench is complete or the budget spent, and a larger budget extends what has been
collected with a smaller one.  On new nodes and channels with room for all participants,
every budget leads to a result. -/
theorem splits_budget {operations : List (Operation wiring.size)} {bench : Bench wiring.size n}
    (hperform : (ofWiring wiring suite .lockstep).performAll operations = .ok bench) :
    (∀ first second,
      (do
        let (ran, between) ← bench.run first
        let (more, last) ← between.run second
        return (ran + more, last)) = bench.run (first + second)) ∧
    (∀ budget count last, bench.run budget = .ok (count, last) → bench.Stops budget count last) ∧
    (∀ budget larger later, budget ≤ larger → wiring.evaluate suite larger = .ok later →
      ∃ earlier, wiring.evaluate suite budget = .ok earlier ∧ earlier.Extends budget later) ∧
    ((∀ node ∈ wiring.nodes, node.IsFresh) →
      (∀ k, wiring.capacities.get k + wiring.size ≤ 2 ^ 63 - 1) → ∀ budget,
        (∃ count last, bench.run budget = .ok (count, last)) ∧
        ∃ evaluation, wiring.evaluate suite budget = .ok evaluation) := by
  have hsteady := isSteady_of_performAll hperform
  refine ⟨hsteady.run_add, fun budget count last => hsteady.stops,
    fun budget larger later hle => exists_evaluate hle, ?_⟩
  intro hfresh hroom budget
  have hsound := sound_ofWiring hfresh hroom suite .lockstep
  have hlater := (performAll_sound hsound operations).of_ok hperform
  -- a run from here, and one from the start
  constructor
  · obtain ⟨⟨count, last⟩, hrun, -⟩ := run_sound hlater budget
    exact ⟨count, last, hrun⟩
  · obtain ⟨⟨count, last⟩, hrun, -⟩ := run_sound hsound budget
    exact ⟨last.evaluation, bind_eq_ok.mpr ⟨_, hrun, rfl⟩⟩

/-- A relay of three values is run in two parts, in each of which it passes one on, and is
evaluated with two budgets, the smaller of which is spent when the first value is through. -/
theorem splits_budget_relay :
    ∃ bench,
      (ofWiring relay ⟨⟨[(0, [7, 8, 9])]⟩, ⟨[(0, [7, 8, 9])]⟩⟩ .lockstep).performAll [.tick] =
        .ok bench ∧
      (do
        let (ran, between) ← bench.run 1
        let (more, last) ← between.run 4
        return (ran + more, last)) = bench.run 5 ∧
      (∃ last, bench.run 1 = .ok (1, last) ∧ bench.Stops 1 1 last) ∧
      (∃ last, bench.run 5 = .ok (2, last) ∧ bench.Stops 5 2 last) ∧
      ∃ earlier later,
        relay.evaluate ⟨⟨[(0, [7, 8, 9])]⟩, ⟨[(0, [7, 8, 9])]⟩⟩ 1 = .ok earlier ∧
        relay.evaluate ⟨⟨[(0, [7, 8, 9])]⟩, ⟨[(0, [7, 8, 9])]⟩⟩ 9 = .ok later ∧
        earlier.ticks = 1 ∧ later.ticks = 3 ∧ earlier.Extends 1 later := by
  -- the first part and the whole, each with the number of its ticks
  have hcounts : ((ofWiring relay ⟨⟨[(0, [7, 8, 9])]⟩, ⟨[(0, [7, 8, 9])]⟩⟩ .lockstep).performAll
      [.tick]).toOption.any (fun bench => (bench.run 1).toOption.any (fun ended => ended.1 == 1) &&
        (bench.run 5).toOption.any fun ended => ended.1 == 2) = true := by
    decide +kernel
  have hfew : (relay.evaluate ⟨⟨[(0, [7, 8, 9])]⟩, ⟨[(0, [7, 8, 9])]⟩⟩ 1).toOption.any
      (fun evaluation => evaluation.ticks == 1) = true := by
    decide +kernel
  have hall : (relay.evaluate ⟨⟨[(0, [7, 8, 9])]⟩, ⟨[(0, [7, 8, 9])]⟩⟩ 9).toOption.any
      (fun evaluation => evaluation.ticks == 3) = true := by
    decide +kernel
  obtain ⟨bench, hperform, hruns⟩ := exists_ok_of_any hcounts
  obtain ⟨hpart, hwhole⟩ := Bool.and_eq_true_iff.mp hruns
  obtain ⟨⟨_, between⟩, hfirst, hone⟩ := exists_ok_of_any hpart
  obtain ⟨⟨_, last⟩, hrun, htwo⟩ := exists_ok_of_any hwhole
  cases eq_of_beq hone
  cases eq_of_beq htwo
  obtain ⟨earlier, hearlier, hticks⟩ := exists_ok_of_any hfew
  obtain ⟨later, hlater, hlaterTicks⟩ := exists_ok_of_any hall
  obtain ⟨hadd, hstops, hextends, -⟩ := splits_budget hperform
  obtain ⟨_, hsame, hextended⟩ := hextends 1 9 later (by decide) hlater
  cases hearlier.symm.trans hsame
  exact ⟨bench, hperform, hadd 1 4, ⟨between, hfirst, hstops 1 1 between hfirst⟩,
    ⟨last, hrun, hstops 5 2 last hrun⟩, earlier, later, hearlier, hlater, eq_of_beq hticks,
    eq_of_beq hlaterTicks, hextended⟩

end Bench

end NodeGrid

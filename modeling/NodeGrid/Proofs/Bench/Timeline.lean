import NodeGrid.Proofs.Bench.Confluence
import NodeGrid.Proofs.Bench.Quiescence
import NodeGrid.Proofs.Network.Pace

/-!
# A bench in lockstep, tick by tick

A bench that is only ticked, and whose channels have one reader and one writer each, can be
followed by counting.  After every tick it is quiescent, so that a reader waits at a channel
only if everything that was sent has been received and nobody waits there to send more
(`Timeline.of_isAwaited`).  And in every tick a source sends the next of its values or comes
to wait with it (`Timeline.source_turn`), a sink receives one value more or comes to wait
for it (`Timeline.sink_turn`), and a node completes one instruction more or comes to wait in
it (`Timeline.begun_eq`).
-/

namespace NodeGrid.Bench

open Network (Path)

variable {n : ℕ} {wiring : Wiring n} {suite : Suite}

/-- The bench after every number of ticks, and what has been done on it. -/
structure Timeline (wiring : Wiring n) (suite : Suite) (bench : ℕ → Bench wiring.size n)
    (log : ℕ → Log (Fin wiring.size) n) : Prop where
  perform_eq : ∀ ticks, (ofWiring wiring suite .lockstep).performAll
    (List.replicate ticks .tick) = .ok (bench ticks)
  log_zero : log 0 = []
  log_prefix_succ : ∀ ticks, log ticks <+: log (ticks + 1)
  orderly : ∀ ticks, Orderly wiring suite .lockstep (log ticks) (bench ticks)
  quiescent : ∀ ticks, (bench ticks).network.Quiescent wiring.capacities
  sentOn_eq : ∀ ticks k, sentOn k (log ticks) =
    receivedOn k (log ticks) ++ ((bench ticks).network.fabric.channel k).buffer
  pace : ∀ ticks task,
    ((bench ticks).network.member task).Pace ((bench (ticks + 1)).network.member task)

/-! ## Counting -/

/-- How many values have been put into a channel after a number of ticks. -/
def countSent {m : ℕ} (log : ℕ → Log (Fin m) n) (k : Fin n) (ticks : ℕ) : ℕ :=
  (sentOn k (log ticks)).length

/-- How many values have been taken out of a channel after a number of ticks. -/
def countReceived {m : ℕ} (log : ℕ → Log (Fin m) n) (k : Fin n) (ticks : ℕ) : ℕ :=
  (receivedOn k (log ticks)).length

namespace Timeline

variable {bench : ℕ → Bench wiring.size n} {log : ℕ → Log (Fin wiring.size) n}
  (htime : Timeline wiring suite bench log) {task : Fin wiring.size} {k : Fin n} {ticks : ℕ}

include htime

theorem countSent_mono (k : Fin n) : Monotone (countSent log k) :=
  monotone_nat_of_le_succ fun ticks => ((htime.log_prefix_succ ticks).filterMap _).length_le

theorem countReceived_mono (k : Fin n) : Monotone (countReceived log k) :=
  monotone_nat_of_le_succ fun ticks => ((htime.log_prefix_succ ticks).filterMap _).length_le

theorem countSent_zero (k : Fin n) : countSent log k 0 = 0 := by
  rw [countSent, htime.log_zero]
  rfl

theorem countReceived_zero (k : Fin n) : countReceived log k 0 = 0 := by
  rw [countReceived, htime.log_zero]
  rfl

theorem countSent_eq (k : Fin n) (ticks : ℕ) : countSent log k ticks =
    countReceived log k ticks + ((bench ticks).network.fabric.channel k).buffer.length := by
  rw [countSent, htime.sentOn_eq, List.length_append]
  rfl

theorem countReceived_le (k : Fin n) (ticks : ℕ) :
    countReceived log k ticks ≤ countSent log k ticks :=
  htime.countSent_eq k ticks ▸ Nat.le_add_right _ _

/-- Who waits for a value has received all that were sent. -/
theorem of_isAwaited (hawaited : (bench ticks).network.IsAwaited k) :
    countSent log k ticks = countReceived log k ticks ∧ ¬ (bench ticks).network.IsBlocked k := by
  obtain ⟨hempty, hnobody⟩ := (htime.quiescent ticks).of_isAwaited hawaited
  refine ⟨?_, hnobody⟩
  rw [htime.countSent_eq, hempty]
  rfl

/-! ## Members -/

/-- A source sends the next of its values, or comes to wait with it. -/
theorem source_turn {values : List Int64}
    (hsource : (ofWiring wiring suite .lockstep).network.member task = .source (.ofValues values k))
    (ticks : ℕ) : countSent log k (ticks + 1) = min values.length (countSent log k ticks + 1) ∨
      (bench (ticks + 1)).network.IsBlocked k ∧
        countSent log k (ticks + 1) = countSent log k ticks := by
  obtain ⟨before, hbefore, -, hunsent⟩ := (htime.orderly ticks).exists_source hsource
  obtain ⟨after, hafter, houtput, hleft⟩ := (htime.orderly (ticks + 1)).exists_source hsource
  have hmono := htime.countSent_mono k (Nat.le_add_right ticks 1)
  have hpace := htime.pace ticks task
  rw [hbefore, hafter] at hpace
  -- a tick takes one value from the list, and either sends it or waits with it
  have hvalues : after.values.length = before.unsent.length - 1 := by
    rw [← Source.backlog_eq]
    cases hpace with
    | source hleft => exact hleft
  have hlength := congrArg List.length hunsent
  have hlengthAfter := congrArg List.length hleft
  rw [List.length_append] at hlength
  rw [Source.unsent, List.length_append, List.length_append] at hlengthAfter
  unfold countSent at hmono ⊢
  cases hpending : after.pending with
  | none =>
      rw [hpending, Option.toList_none, List.length_nil] at hlengthAfter
      exact Or.inl (by omega)
  | some value =>
      rw [hpending, Option.toList_some, List.length_singleton] at hlengthAfter
      refine Or.inr ⟨⟨task, value, ?_⟩, by omega⟩
      rw [Network.engaged, hafter, ← houtput]
      exact congrArg (Option.map _) hpending

/-- A sink receives one value more, or comes to wait for it. -/
theorem sink_turn
    (hsink : (ofWiring wiring suite .lockstep).network.member task = .sink (.ofChannel k))
    (ticks : ℕ) : countReceived log k (ticks + 1) = countReceived log k ticks + 1 ∨
      (bench (ticks + 1)).network.IsAwaited k ∧
        countReceived log k (ticks + 1) = countReceived log k ticks := by
  obtain ⟨before, hbefore, -, hresults⟩ := (htime.orderly ticks).exists_sink hsink
  obtain ⟨after, hafter, hinput, hlater⟩ := (htime.orderly (ticks + 1)).exists_sink hsink
  have hpace := htime.pace ticks task
  rw [hbefore, hafter] at hpace
  -- a tick takes one value, or waits for it
  have htaken : after.results.length + after.waiting.toNat = before.results.length + 1 := by
    cases hpace with
    | sink htaken => exact htaken
  rw [countReceived, countReceived, ← hresults, ← hlater]
  cases hwaiting : after.waiting with
  | false =>
      rw [hwaiting] at htaken
      exact Or.inl htaken
  | true =>
      rw [hwaiting] at htaken
      refine Or.inr ⟨⟨task, ?_⟩, Nat.succ.inj htaken⟩
      rw [Network.engaged, hafter, ← hinput]
      exact if_pos hwaiting

/-- A node completes one instruction more, or comes to wait in it. -/
theorem begun_eq {before after : Node n}
    (hbefore : (bench ticks).network.member task = .node before)
    (hafter : (bench (ticks + 1)).network.member task = .node after)
    (hprogram : before.program ≠ []) : after.begun = before.executed + 1 := by
  have hpace := htime.pace ticks task
  rw [hbefore, hafter] at hpace
  cases hpace with
  | node hbegun => exact hbegun hprogram

end Timeline

/-! ## The timeline of a bench -/

/-- A node that follows its program has abandoned nothing. -/
theorem abandoned_eq_none {start : Participant n} {deeds : List (Deed n)} {node : Node n}
    (hfollows : start.Follows deeds (.node node)) : node.abandoned = none := by
  cases hfollows with
  | node hruns =>
      obtain ⟨demand, -, hat⟩ := hruns.leads
      exact hat.abandoned_eq

theorem tick_of_performAll {m : ℕ} {start before after : Bench m n} {ticks : ℕ}
    (hbefore : start.performAll (List.replicate ticks .tick) = .ok before)
    (hafter : start.performAll (List.replicate (ticks + 1) .tick) = .ok after) :
    before.tick = .ok after := by
  rw [List.replicate_succ', performAll_append] at hafter
  obtain ⟨between, hbetween, hlast⟩ := hafter
  cases hbefore.symm.trans hbetween
  obtain ⟨next, htick, hend⟩ := bind_eq_ok.mp hlast
  cases hend
  exact htick

/-- A bench whose channels have one reader and one writer each can be ticked for ever. -/
theorem exists_timeline (hfresh : ∀ node ∈ wiring.nodes, node.IsFresh)
    (hexclusive : wiring.IsExclusive suite)
    (hroom : ∀ k, wiring.capacities.get k + 2 ≤ 2 ^ 63 - 1) :
    ∃ bench log, Timeline wiring suite bench log := by
  have hkeep : ∀ (ticks : ℕ) (task : Fin wiring.size) text,
      Operation.load task text ∉ List.replicate ticks .tick := by
    intro ticks task text hmem
    cases List.eq_of_mem_replicate hmem
  -- the benches after each number of ticks are chosen at once, and are one timeline since every run
  -- begins with the shorter ones
  have hall := fun ticks => orderly_of_performAll hfresh hexclusive hroom .lockstep (hkeep ticks)
  choose bench hperform horderly using hall
  have hsound := sound_of_isExclusive hfresh hexclusive hroom .lockstep
  have hpath : ∀ ticks, Path (fun _ => False) .resuming (ofWiring wiring suite .lockstep).network
      ((ofWiring wiring suite .lockstep).performAllTrace (List.replicate ticks .tick)) .resuming
      (bench ticks).network := fun ticks =>
    (path_of_performAll (isQuiet_ofWiring wiring suite .lockstep) (hkeep ticks) (hperform ticks)).1
  have hreplay := fun ticks => (hpath ticks).replay hsound fun _ hload => hload.elim
  have hsounds := fun ticks => (hpath ticks).sound hsound fun _ hload => hload.elim
  refine ⟨bench, fun ticks => (ofWiring wiring suite .lockstep).performAllTrace
    (List.replicate ticks .tick), ?_⟩
  constructor
  case perform_eq => exact hperform
  case log_zero => rfl
  case log_prefix_succ =>
    intro ticks
    rw [List.replicate_succ', performAllTrace_append (hperform ticks)]
    exact List.prefix_append _ _
  case orderly => exact horderly
  case quiescent =>
    intro ticks
    have hready := isQuiet_of_performAll (hperform ticks) (hpath ticks).discipline_eq
    refine (hsounds ticks).quiescent hready fun k => ?_
    calc ((bench ticks).network.fabric.channel k).capacity
        = ((ofWiring wiring suite .lockstep).network.fabric.channel k).capacity :=
          capacity_replay (hreplay ticks) k
      _ = wiring.capacities.get k := by rw [channel_ofWiring]; rfl
  case sentOn_eq => exact fun ticks => sentOn_of_replay (hreplay ticks)
  case pace =>
    intro ticks task
    -- the bench of the next number of ticks is that after one tick more
    have htick := tick_of_performAll (hperform ticks) (hperform (ticks + 1))
    obtain ⟨⟨settled, network⟩, hnetwork, hnext⟩ := bind_eq_ok.mp htick
    rw [show (bench (ticks + 1)).network = network from
      congrArg Bench.network (Except.ok.inj hnext).symm]
    refine (hsounds ticks).pace_of_lockstep (hpath ticks).discipline_eq (fun node hnode => ?_)
      hnetwork
    exact abandoned_eq_none (hnode ▸ (horderly ticks).follows task)

end NodeGrid.Bench

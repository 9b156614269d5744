import NodeGrid.Proofs.Bench.Timeline
import NodeGrid.Proofs.Node.Passing

/-!
# Pipelines

A source, nodes that pass values on, and a sink, one below the other, are a pipeline
(`IsPipeline`).  In lockstep it delivers a value in every tick, from the first one on and
whatever the capacities are (`Timeline.delivered_of_isPipeline`).

That the values arrive in order is a matter of prefixes (`Timeline.prefix_of_isPipeline`).
That one arrives in each tick is shown channel by channel, from the source downwards: the
reader and the writer of a channel cannot both come to wait there in the same tick, so that
both complete their steps (`Timeline.both_of_turns`).
-/

namespace NodeGrid.Bench

variable {n : ℕ} {wiring : Wiring n} {suite : Suite} {bench : ℕ → Bench wiring.size n}
  {log : ℕ → Log (Fin wiring.size) n}

/-- A node has passed on what it has received. -/
theorem Orderly.exists_passes {discipline : Discipline} {log : Log (Fin wiring.size) n}
    {bench : Bench wiring.size n} (horderly : Orderly wiring suite discipline log bench)
    {task : Fin wiring.size} {start : Node n} {source target : Port} {a b : Fin n}
    (hstart : (ofWiring wiring suite discipline).network.member task = .node start)
    (hfresh : start.IsFresh) (hprogram : start.program = .passing source target)
    (hsource : start.ports source = some a) (htarget : start.ports target = some b) :
    ∃ node, bench.network.member task = .node node ∧ node.program = .passing source target ∧
      node.ports = start.ports ∧
      Passes source target node.executed (receivedOn a log) (sentOn b log) node.pending := by
  -- the node is the only reader of the one channel, and the only writer of the other
  have hreads : ((ofWiring wiring suite discipline).network.member task).reads a := by
    rw [hstart]
    exact (Node.reads_passing_iff hprogram).mpr hsource
  have hwrites : ((ofWiring wiring suite discipline).network.member task).writes b := by
    rw [hstart]
    exact (Node.writes_passing_iff hprogram).mpr htarget
  obtain ⟨node, hnode, hsame, hports, hinterprets⟩ := (hstart ▸ horderly.follows task).exists_node
    hfresh.interprets (by simp [hprogram, Program.passing])
  refine ⟨node, hnode, hsame.trans hprogram, hports, ?_⟩
  rw [horderly.exclusive.receivedOn_eq hreads, horderly.exclusive.sentOn_eq hwrites]
  exact Node.passes hinterprets (hsame.trans hprogram) (hports ▸ hsource) (hports ▸ htarget)

namespace Timeline

variable (htime : Timeline wiring suite bench log) {task : Fin wiring.size} {ticks count : ℕ}
  {k a b : Fin n}

include htime

/-- If the reader and the writer of a channel have done the same number of steps, and each
of them completes one more or waits at the channel, then both complete it. -/
theorem both_of_turns
    (hreader : countReceived log k ticks = count + 1 ∨
      (bench ticks).network.IsAwaited k ∧ countReceived log k ticks = count)
    (hwriter : countSent log k ticks = count + 1 ∨
      (bench ticks).network.IsBlocked k ∧ countSent log k ticks = count) :
    countSent log k ticks = count + 1 ∧ countReceived log k ticks = count + 1 := by
  have hle := htime.countReceived_le k ticks
  rcases hwriter with hsent | ⟨hblocked, hsent⟩
  · rcases hreader with hreceived | ⟨hawaited, hreceived⟩
    · exact ⟨hsent, hreceived⟩
    · have hall := (htime.of_isAwaited hawaited).1
      omega
  · rcases hreader with hreceived | ⟨hawaited, -⟩
    · omega
    · exact absurd hblocked (htime.of_isAwaited hawaited).2

/-! ## Nodes that pass values on -/

section Passing

variable {start : Node n} {source target : Port}
  (hstart : (ofWiring wiring suite .lockstep).network.member task = .node start)
  (hfresh : start.IsFresh) (hprogram : start.program = .passing source target)
  (hsource : start.ports source = some a) (htarget : start.ports target = some b)

include hstart hfresh hprogram hsource htarget

theorem passing_le (ticks : ℕ) : countSent log b ticks ≤ countReceived log a ticks := by
  obtain ⟨node, -, -, -, hpasses⟩ :=
    (htime.orderly ticks).exists_passes hstart hfresh hprogram hsource htarget
  exact hpasses.sent_prefix_received.length_le

/-- A node receives a value and sends it, or comes to wait with one or the other. -/
theorem passing_turn (ticks : ℕ) :
    countReceived log a (ticks + 1) = countSent log b ticks + 1 ∧
        (countSent log b (ticks + 1) = countSent log b ticks + 1 ∨
          (bench (ticks + 1)).network.IsBlocked b ∧
            countSent log b (ticks + 1) = countSent log b ticks) ∨
      (bench (ticks + 1)).network.IsAwaited a ∧
        countReceived log a (ticks + 1) = countSent log b ticks ∧
        countSent log b (ticks + 1) = countSent log b ticks := by
  obtain ⟨before, hbefore, hsame, -, hpassed⟩ :=
    (htime.orderly ticks).exists_passes hstart hfresh hprogram hsource htarget
  obtain ⟨after, hafter, -, hports, hpasses⟩ :=
    (htime.orderly (ticks + 1)).exists_passes hstart hfresh hprogram hsource htarget
  have hbegun := htime.begun_eq hbefore hafter (by simp [hsame, Program.passing])
  unfold countReceived countSent
  rw [hpassed.length_sent]
  generalize receivedOn a (log (ticks + 1)) = received at hpasses ⊢
  generalize sentOn b (log (ticks + 1)) = sent at hpasses ⊢
  -- what the node waits with after the tick tells which of the two it was
  generalize hpending : after.pending = operation at hpasses
  cases hpasses with
  | idle hlength =>
      rw [Node.begun_of_idle hpending] at hbegun
      rw [hlength]
      exact Or.inl ⟨hbegun, Or.inl hbegun⟩
  | reading hlength =>
      -- nothing has come in, so nothing has gone out
      rw [Node.begun_of_pending _ (by simp [hpending])] at hbegun
      rw [hlength]
      exact Or.inr ⟨⟨task, Network.engaged_of_reading hafter hpending (hports ▸ hsource)⟩,
        Nat.succ.inj hbegun, Nat.succ.inj hbegun⟩
  | writing value hlength =>
      rw [Node.begun_of_pending _ (by simp [hpending])] at hbegun
      rw [List.length_append, hlength]
      exact Or.inl ⟨hbegun, Or.inr ⟨⟨task, value,
        Network.engaged_of_writing hafter hpending (hports ▸ htarget)⟩, Nat.succ.inj hbegun⟩⟩

end Passing

end Timeline

/-! ## Pipelines -/

/-- A source with the given values, nodes that pass values on and a sink are connected one
after the other by the channels. -/
structure IsPipeline (wiring : Wiring n) (suite : Suite) (values : List Int64) {length : ℕ}
    (channel : Fin (length + 1) → Fin n) : Prop where
  source : ∃ task, (ofWiring wiring suite .lockstep).network.member task =
    .source (.ofValues values (channel 0))
  nodes : ∀ i : Fin length, ∃ task start source target,
    (ofWiring wiring suite .lockstep).network.member task = .node start ∧ start.IsFresh ∧
      start.program = .passing source target ∧ start.ports source = some (channel i.castSucc) ∧
      start.ports target = some (channel i.succ)
  sink : ∃ task, (ofWiring wiring suite .lockstep).network.member task =
    .sink (.ofChannel (channel (Fin.last length)))

namespace Timeline

variable {values : List Int64} {length ticks : ℕ} {channel : Fin (length + 1) → Fin n}
  (htime : Timeline wiring suite bench log) (hpipeline : IsPipeline wiring suite values channel)

include htime hpipeline

/-- What comes through a channel of a pipeline are the first values of its source. -/
theorem prefix_of_isPipeline (i : Fin (length + 1)) (ticks : ℕ) :
    sentOn (channel i) (log ticks) <+: values := by
  induction i using Fin.induction with
  | zero =>
      obtain ⟨task, hsource⟩ := hpipeline.source
      obtain ⟨source, -, -, hvalues⟩ := (htime.orderly ticks).exists_source hsource
      exact ⟨_, hvalues⟩
  | succ i ih =>
      obtain ⟨task, start, source, target, hstart, hfresh, hprogram, hsource, htarget⟩ :=
        hpipeline.nodes i
      obtain ⟨node, -, -, -, hpasses⟩ :=
        (htime.orderly ticks).exists_passes hstart hfresh hprogram hsource htarget
      calc sentOn (channel i.succ) (log ticks)
        _ <+: receivedOn (channel i.castSucc) (log ticks) := hpasses.sent_prefix_received
        _ <+: sentOn (channel i.castSucc) (log ticks) :=
            (htime.orderly ticks).receivedOn_prefix_sentOn _
        _ <+: values := ih

/-- The reader of a channel receives a value, or comes to wait for it. -/
theorem reader_turn (hbefore : ∀ i, countSent log (channel i) ticks = ticks ∧
      countReceived log (channel i) ticks = ticks) (i : Fin (length + 1)) :
    countReceived log (channel i) (ticks + 1) = ticks + 1 ∨
      (bench (ticks + 1)).network.IsAwaited (channel i) ∧
        countReceived log (channel i) (ticks + 1) = ticks := by
  cases i using Fin.lastCases with
  | last =>
      obtain ⟨task, hsink⟩ := hpipeline.sink
      have hturn := htime.sink_turn hsink ticks
      rwa [(hbefore _).2] at hturn
  | cast i =>
      obtain ⟨task, start, source, target, hstart, hfresh, hprogram, hsource, htarget⟩ :=
        hpipeline.nodes i
      have hturn := htime.passing_turn hstart hfresh hprogram hsource htarget ticks
      rw [(hbefore _).1] at hturn
      exact hturn.imp And.left fun hwaits => ⟨hwaits.1, hwaits.2.1⟩

/-- As long as there are values, one goes through every channel in a tick. -/
theorem counts_of_isPipeline (hticks : ticks ≤ values.length) (i : Fin (length + 1)) :
    countSent log (channel i) ticks = ticks ∧ countReceived log (channel i) ticks = ticks := by
  induction ticks generalizing i with
  | zero => exact ⟨htime.countSent_zero _, htime.countReceived_zero _⟩
  | succ ticks ih =>
      have hbefore := ih (Nat.le_of_succ_le hticks)
      -- the writers take their turns from the source downwards
      induction i using Fin.induction with
      | zero =>
          obtain ⟨task, hsource⟩ := hpipeline.source
          have hturn := htime.source_turn hsource ticks
          rw [(hbefore 0).1, min_eq_right hticks] at hturn
          exact htime.both_of_turns (htime.reader_turn hpipeline hbefore 0) hturn
      | succ i hupper =>
          obtain ⟨task, start, source, target, hstart, hfresh, hprogram, hsource, htarget⟩ :=
            hpipeline.nodes i
          have hturn := htime.passing_turn hstart hfresh hprogram hsource htarget ticks
          rw [(hbefore i.succ).1] at hturn
          rcases hturn with ⟨-, hsent⟩ | ⟨-, hstuck⟩
          · exact htime.both_of_turns (htime.reader_turn hpipeline hbefore i.succ) hsent
          · have hreceived := hupper.2
            omega

/-- A pipeline delivers one value in every tick. -/
theorem delivered_of_isPipeline (ticks : ℕ) :
    countSent log (channel 0) ticks = min ticks values.length ∧
      receivedOn (channel (Fin.last length)) (log ticks) = values.take ticks := by
  have hwhole := fun i => (htime.prefix_of_isPipeline hpipeline i ticks).length_le
  have hlast := ((htime.orderly ticks).receivedOn_prefix_sentOn (channel (Fin.last length))).trans
    (htime.prefix_of_isPipeline hpipeline _ ticks)
  have hcounts : countSent log (channel 0) ticks = min ticks values.length ∧
      countReceived log (channel (Fin.last length)) ticks = min ticks values.length := by
    rcases Nat.le_total ticks values.length with hle | hge
    · rw [min_eq_left hle]
      exact ⟨(htime.counts_of_isPipeline hpipeline hle 0).1,
        (htime.counts_of_isPipeline hpipeline hle (Fin.last length)).2⟩
    · -- all values have gone through by the tick with the number of the last one
      rw [min_eq_right hge]
      have hsent := htime.countSent_mono (channel 0) hge
      have hreceived := htime.countReceived_mono (channel (Fin.last length)) hge
      rw [(htime.counts_of_isPipeline hpipeline le_rfl _).1] at hsent
      rw [(htime.counts_of_isPipeline hpipeline le_rfl _).2] at hreceived
      exact ⟨le_antisymm (hwhole 0) hsent, le_antisymm hlast.length_le hreceived⟩
  refine ⟨hcounts.1, ?_⟩
  calc receivedOn (channel (Fin.last length)) (log ticks)
      = values.take (countReceived log (channel (Fin.last length)) ticks) :=
        List.prefix_iff_eq_take.mp hlast
    _ = values.take ticks := by rw [hcounts.2, ← List.take_eq_take_min]

end Timeline

end NodeGrid.Bench

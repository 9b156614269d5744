import NodeGrid.Proofs.Bench.Pipeline
import NodeGrid.Proofs.Node.Adding

/-!
# Adders

A node that adds what comes in at two ports is an adder (`IsAdder`) if one of the ports is
fed by a source, the other one by a node that passes on what another source sends, and the
sums go to a sink.

Whatever the schedule is, the sink collects the sums of the two lists of values, in order
(`IsAdder.sentOn_prefix_sums`).  In lockstep, the adder completes an instruction in every tick
until it is out of values (`Executes.executed_eq`): it never waits with a sum, because the
sink has received all others, and it waits for a value only if the source of that value has
no more.  So a sum arrives in every third tick (`sums_of_isAdder`).
-/

namespace NodeGrid.Bench

variable {n : ℕ} {wiring : Wiring n} {suite : Suite} {discipline : Discipline}
  {values others : List Int64} {direct outer inner output : Fin n}

/-- A node adds the values that come directly from a source through channel `direct` to
those that another node passes on from channel `outer` to channel `inner`, and a sink
receives the sums through channel `output`. -/
structure IsAdder (wiring : Wiring n) (suite : Suite) (discipline : Discipline)
    (values others : List Int64) (direct outer inner output : Fin n) : Prop where
  values : ∃ task, (ofWiring wiring suite discipline).network.member task =
    .source (.ofValues values direct)
  others : ∃ task, (ofWiring wiring suite discipline).network.member task =
    .source (.ofValues others outer)
  passes : ∃ task start source target,
    (ofWiring wiring suite discipline).network.member task = .node start ∧ start.IsFresh ∧
      start.program = .passing source target ∧ start.ports source = some outer ∧
      start.ports target = some inner
  adds : ∃ task start first second target,
    (ofWiring wiring suite discipline).network.member task = .node start ∧ start.IsFresh ∧
      start.program = .adding first second target ∧ start.ports first = some direct ∧
      start.ports second = some inner ∧ start.ports target = some output
  sink : ∃ task, (ofWiring wiring suite discipline).network.member task = .sink (.ofChannel output)
  direct_ne : direct ≠ inner

/-- A node has sent the sums of what it has received. -/
theorem Orderly.exists_adds {log : Log (Fin wiring.size) n} {bench : Bench wiring.size n}
    (horderly : Orderly wiring suite discipline log bench)
    {task : Fin wiring.size} {start : Node n} {first second target : Port} {a b c : Fin n}
    (hstart : (ofWiring wiring suite discipline).network.member task = .node start)
    (hfresh : start.IsFresh) (hprogram : start.program = .adding first second target)
    (hfirst : start.ports first = some a) (hsecond : start.ports second = some b)
    (htarget : start.ports target = some c) (hne : a ≠ b) :
    ∃ node, bench.network.member task = .node node ∧
      node.program = .adding first second target ∧ node.ports = start.ports ∧
      Adds node.executed (receivedOn a log) (receivedOn b log) (sentOn c log) ∧
      AddingWaits first second target node.executed node.pending := by
  -- the node is the only reader of its two inputs, and the only writer of its target
  have hreads : ((ofWiring wiring suite discipline).network.member task).reads a ∧
      ((ofWiring wiring suite discipline).network.member task).reads b := by
    rw [hstart]
    exact ⟨(Node.reads_adding_iff hprogram).mpr (Or.inl hfirst),
      (Node.reads_adding_iff hprogram).mpr (Or.inr hsecond)⟩
  have hwrites : ((ofWiring wiring suite discipline).network.member task).writes c := by
    rw [hstart]
    exact (Node.writes_adding_iff hprogram).mpr htarget
  obtain ⟨node, hnode, hsame, hports, hinterprets⟩ := (hstart ▸ horderly.follows task).exists_node
    hfresh.interprets (by simp [hprogram, Program.adding])
  refine ⟨node, hnode, hsame.trans hprogram, hports, ?_⟩
  rw [horderly.exclusive.receivedOn_eq hreads.1, horderly.exclusive.receivedOn_eq hreads.2,
    horderly.exclusive.sentOn_eq hwrites]
  exact Node.adds (hports ▸ hfirst) (hports ▸ hsecond) (hports ▸ htarget) hinterprets
    (hsame.trans hprogram) hne

namespace IsAdder

variable {log : Log (Fin wiring.size) n} {bench : Bench wiring.size n}
  (hadder : IsAdder wiring suite discipline values others direct outer inner output)
  (horderly : Orderly wiring suite discipline log bench)

include hadder horderly

/-- The values that the adder has received are the first ones of the sources. -/
theorem receivedOn_prefix_values :
    receivedOn direct log <+: values ∧ receivedOn inner log <+: others := by
  obtain ⟨task, hvalues⟩ := hadder.values
  obtain ⟨source, -, -, hfirst⟩ := horderly.exists_source hvalues
  obtain ⟨other, hothers⟩ := hadder.others
  obtain ⟨otherSource, -, -, hsecond⟩ := horderly.exists_source hothers
  obtain ⟨passer, start, entry, exit, hstart, hfresh, hprogram, hentry, hexit⟩ := hadder.passes
  obtain ⟨node, -, -, -, hpasses⟩ :=
    horderly.exists_passes hstart hfresh hprogram hentry hexit
  constructor
  · exact (horderly.receivedOn_prefix_sentOn direct).trans ⟨_, hfirst⟩
  · calc receivedOn inner log
      _ <+: sentOn inner log := horderly.receivedOn_prefix_sentOn inner
      _ <+: receivedOn outer log := hpasses.sent_prefix_received
      _ <+: sentOn outer log := horderly.receivedOn_prefix_sentOn outer
      _ <+: others := ⟨_, hsecond⟩

/-- What has been sent to the sink are the first sums. -/
theorem sentOn_prefix_sums : sentOn output log <+: List.zipWith (· + ·) values others := by
  obtain ⟨hfirsts, hseconds⟩ := hadder.receivedOn_prefix_values horderly
  obtain ⟨task, start, first, second, target, hstart, hfresh, hprogram, hfirst, hsecond, htarget⟩ :=
    hadder.adds
  obtain ⟨node, -, -, -, hadds, -⟩ :=
    horderly.exists_adds hstart hfresh hprogram hfirst hsecond htarget hadder.direct_ne
  rw [hadds.sums_eq_take hfirsts hseconds]
  exact List.take_prefix _ _

end IsAdder

/-! ## In lockstep -/

/-- In a tick, the adder completes an instruction, or it comes to wait in it. -/
inductive AddingTurn (network : Network wiring.size n) (direct inner output : Fin n)
    (before : ℕ) : ℕ → Prop where
  | completed : AddingTurn network direct inner output before (before + 1)
  | lacksFirst (hat : before % 3 = 0) (hawaited : network.IsAwaited direct) :
      AddingTurn network direct inner output before before
  | lacksSecond (hat : before % 3 = 1) (hawaited : network.IsAwaited inner) :
      AddingTurn network direct inner output before before
  | holdsSum (hat : before % 3 = 2) (hblocked : network.IsBlocked output) :
      AddingTurn network direct inner output before before

/-- How many instructions the adder has completed after every tick. -/
structure Executes (bench : ℕ → Bench wiring.size n) (log : ℕ → Log (Fin wiring.size) n)
    (direct inner output : Fin n) (executed : ℕ → ℕ) : Prop where
  adds : ∀ ticks, Adds (executed ticks) (receivedOn direct (log ticks))
    (receivedOn inner (log ticks)) (sentOn output (log ticks))
  turn : ∀ ticks, AddingTurn (bench (ticks + 1)).network direct inner output (executed ticks)
    (executed (ticks + 1))

section Lockstep

variable {bench : ℕ → Bench wiring.size n} {log : ℕ → Log (Fin wiring.size) n}
  {executed : ℕ → ℕ} {ticks : ℕ} (htime : Timeline wiring suite bench log)
  (hadder : IsAdder wiring suite .lockstep values others direct outer inner output)
  (hexecutes : Executes bench log direct inner output executed)

include htime hadder in
theorem exists_executes : ∃ executed, Executes bench log direct inner output executed := by
  obtain ⟨task, start, first, second, target, hstart, hfresh, hprogram, hfirst, hsecond, htarget⟩ :=
    hadder.adds
  have hnodes := fun ticks => (htime.orderly ticks).exists_adds hstart hfresh hprogram hfirst
    hsecond htarget hadder.direct_ne
  choose node hnode hsame hports hadds hwaits using hnodes
  refine ⟨fun ticks => (node ticks).executed, hadds, fun ticks => ?_⟩
  -- a tick without an outstanding operation completes an instruction, any other one none
  have hbegun := htime.begun_eq (hnode ticks) (hnode (ticks + 1)) (by simp [hsame, Program.adding])
  have hwait := hwaits (ticks + 1)
  generalize hpending : (node (ticks + 1)).pending = operation at hwait
  by_cases hidle : operation = none
  · rw [Node.begun_of_idle (hpending.trans hidle)] at hbegun
    rw [hbegun]
    exact .completed
  · rw [Node.begun_of_pending _ (hpending.trans_ne hidle)] at hbegun
    rw [Nat.succ.inj hbegun] at hwait ⊢
    cases hwait with
    | idle => exact absurd rfl hidle
    | first hat =>
        -- what is outstanding says where in the program the node is
        exact .lacksFirst hat
          ⟨task, Network.engaged_of_reading (hnode _) hpending (hports _ ▸ hfirst)⟩
    | second hat =>
        exact .lacksSecond hat
          ⟨task, Network.engaged_of_reading (hnode _) hpending (hports _ ▸ hsecond)⟩
    | target value hat =>
        exact .holdsSum hat
          ⟨task, value, Network.engaged_of_writing (hnode _) hpending (hports _ ▸ htarget)⟩

namespace Executes

include hexecutes

theorem countReceived_direct (ticks : ℕ) :
    countReceived log direct ticks = (executed ticks + 2) / 3 :=
  (hexecutes.adds ticks).length_firsts

theorem countReceived_inner (ticks : ℕ) :
    countReceived log inner ticks = (executed ticks + 1) / 3 :=
  (hexecutes.adds ticks).length_seconds

theorem countSent_output (ticks : ℕ) : countSent log output ticks = executed ticks / 3 :=
  (hexecutes.adds ticks).length_sums

theorem executed_le (ticks : ℕ) : executed (ticks + 1) ≤ executed ticks + 1 := by
  have hturn := hexecutes.turn ticks
  generalize executed (ticks + 1) = after at hturn ⊢
  cases hturn with
  | completed => exact le_rfl
  | lacksFirst => exact Nat.le_succ _
  | lacksSecond => exact Nat.le_succ _
  | holdsSum => exact Nat.le_succ _

include htime hadder

/-- The sink has received all sums. -/
theorem countReceived_output (ticks : ℕ) :
    countReceived log output ticks = executed ticks / 3 := by
  induction ticks with
  | zero => rw [htime.countReceived_zero, ← hexecutes.countSent_output, htime.countSent_zero]
  | succ ticks ih =>
      obtain ⟨task, hsink⟩ := hadder.sink
      rcases htime.sink_turn hsink ticks with hreceived | ⟨hawaited, -⟩
      · have hle := htime.countReceived_le output (ticks + 1)
        rw [hexecutes.countSent_output] at hle
        have hstep := hexecutes.executed_le ticks
        omega
      · rw [← hexecutes.countSent_output]
        exact (htime.of_isAwaited hawaited).1.symm

/-- The adder does not wait with a sum. -/
theorem not_isBlocked (hkept : executed (ticks + 1) = executed ticks) :
    ¬ (bench (ticks + 1)).network.IsBlocked output := by
  intro hblocked
  obtain ⟨task, hsink⟩ := hadder.sink
  rcases htime.sink_turn hsink ticks with hreceived | ⟨hawaited, -⟩
  · rw [hexecutes.countReceived_output htime hadder, hexecutes.countReceived_output htime hadder,
      hkept] at hreceived
    omega
  · exact (htime.of_isAwaited hawaited).2 hblocked

/-- When the adder waits for a first value, there are no more. -/
theorem executed_of_lacksFirst (hkept : executed (ticks + 1) = executed ticks)
    (hat : executed ticks % 3 = 0) (hawaited : (bench (ticks + 1)).network.IsAwaited direct) :
    executed ticks = 3 * values.length := by
  obtain ⟨task, hsource⟩ := hadder.values
  obtain ⟨hall, hnobody⟩ := htime.of_isAwaited hawaited
  have hle := htime.countReceived_le direct ticks
  rw [hexecutes.countReceived_direct] at hall hle
  rcases htime.source_turn hsource ticks with hsent | ⟨hblocked, -⟩
  · omega
  · exact absurd hblocked hnobody

/-- When the adder waits for a second value, there are no more. -/
theorem executed_of_lacksSecond (hkept : executed (ticks + 1) = executed ticks)
    (hat : executed ticks % 3 = 1) (hawaited : (bench (ticks + 1)).network.IsAwaited inner) :
    executed ticks = 3 * others.length + 1 := by
  obtain ⟨task, hsource⟩ := hadder.others
  obtain ⟨passer, start, entry, exit, hstart, hfresh, hprogram, hentry, hexit⟩ := hadder.passes
  obtain ⟨hall, hnobody⟩ := htime.of_isAwaited hawaited
  have hle := htime.countReceived_le inner ticks
  rw [hexecutes.countReceived_inner] at hall hle
  rcases htime.passing_turn hstart hfresh hprogram hentry hexit ticks with
    ⟨-, hsent | ⟨hblocked, -⟩⟩ | ⟨hawaits, hreceived, hsent⟩
  · -- the node in between would have had a value less than the adder
    omega
  · exact absurd hblocked hnobody
  · -- the node in between waits as well, and so its source has no more values
    obtain ⟨hnone, hfree⟩ := htime.of_isAwaited hawaits
    have hpassed := htime.passing_le hstart hfresh hprogram hentry hexit ticks
    have houter := htime.countReceived_le outer ticks
    rcases htime.source_turn hsource ticks with hfed | ⟨hblocked, -⟩
    · omega
    · exact absurd hblocked hfree

/-- The adder completes an instruction in every tick until it is out of values. -/
theorem executed_eq (ticks : ℕ) :
    executed ticks = min ticks (min (3 * values.length) (3 * others.length + 1)) := by
  -- a value of the one input is needed for every three instructions, and the last value of the
  -- other allows for one instruction more
  have hbounds : ∀ ticks, executed ticks ≤ 3 * values.length ∧
      executed ticks ≤ 3 * others.length + 1 := by
    intro ticks
    obtain ⟨hfirsts, hseconds⟩ := hadder.receivedOn_prefix_values (htime.orderly ticks)
    have hvalues : (executed ticks + 2) / 3 ≤ values.length :=
      hexecutes.countReceived_direct ticks ▸ hfirsts.length_le
    have hothers : (executed ticks + 1) / 3 ≤ others.length :=
      hexecutes.countReceived_inner ticks ▸ hseconds.length_le
    omega
  induction ticks with
  | zero =>
      have hzero := htime.countReceived_zero direct
      rw [hexecutes.countReceived_direct] at hzero
      omega
  | succ ticks ih =>
      have hturn := hexecutes.turn ticks
      have hlast := hbounds (ticks + 1)
      generalize hafter : executed (ticks + 1) = after at hturn hlast ⊢
      cases hturn with
      | completed => omega
      | lacksFirst hat hawaited =>
          -- the adder only waits when it has come to the end
          have hend := hexecutes.executed_of_lacksFirst htime hadder hafter hat hawaited
          omega
      | lacksSecond hat hawaited =>
          have hend := hexecutes.executed_of_lacksSecond htime hadder hafter hat hawaited
          omega
      | holdsSum hat hblocked =>
          -- what is shown is always taken at once
          exact absurd hblocked (hexecutes.not_isBlocked htime hadder hafter)

end Executes

include htime hadder in
/-- The adder delivers a sum in every third tick. -/
theorem sums_of_isAdder (ticks : ℕ) : receivedOn output (log ticks) =
    (List.zipWith (· + ·) values others).take
      (min (ticks / 3) (min values.length others.length)) := by
  obtain ⟨executed, hexecutes⟩ := exists_executes htime hadder
  have hcount : countReceived log output ticks =
      min (ticks / 3) (min values.length others.length) := by
    rw [hexecutes.countReceived_output htime hadder, hexecutes.executed_eq htime hadder]
    omega
  have hprefix := ((htime.orderly ticks).receivedOn_prefix_sentOn output).trans
    (hadder.sentOn_prefix_sums (htime.orderly ticks))
  rw [← hcount]
  exact List.prefix_iff_eq_take.mp hprefix

end Lockstep

end NodeGrid.Bench

import NodeGrid.Proofs.Bench.Trace
import NodeGrid.Proofs.Bench.Interpretation

/-!
# No channel is left half served

A value in a buffer and a receiver that waits for one, or a free slot and a sender
that waits for one, would be a wake-up that got lost.  The accounts of a channel rule
this out once every task that was woken has gone on: values are then promised to
nobody and slots held by nobody, so that the two counts of the channel add up to
its capacity, and one of its lines is empty (`Exchange.Sound.served`).

A network is quiescent when nobody is ready.  Settling brings this about from every
state (`path_of_settle`), and in lockstep so does each tick; what has happened before,
and which nodes got new programs in the middle of an operation, does not matter
(`Bench.quiescent_of_performAll`).
-/

namespace NodeGrid

/-! ## Channels -/

/-- A channel of the given capacity with nothing for those who wait at it. -/
structure Channel.Served {τ : Type} (channel : Channel τ) (capacity : ℕ) : Prop where
  length_buffer_le : channel.buffer.length ≤ capacity
  /-- Receivers wait only while there is neither a value nor a sender. -/
  receivers : channel.filledSlots.waiters ≠ [] →
    channel.buffer = [] ∧ channel.emptySlots.waiters = []
  /-- Senders wait only while every slot is filled and there is no receiver. -/
  senders : channel.emptySlots.waiters ≠ [] →
    channel.buffer.length = capacity ∧ channel.filledSlots.waiters = []

namespace Exchange

variable {τ : Type} [Fintype τ] {exchange : Exchange τ} {users : Finset τ}

/-- A channel is served when all tasks that were woken have gone on. -/
theorem Sound.served (hsound : exchange.Sound users) (hsenders : exchange.wokenSenders = 0)
    (hreceivers : exchange.wokenReceivers = 0) :
    exchange.channel.Served exchange.channel.capacity := by
  -- with nobody on the way, the permits are what the queues and the buffer say
  have hslots := hsound.slots_eq
  have hvalues := hsound.values_eq
  have hparkedSenders := hsound.parkedSenders_eq
  have hparkedReceivers := hsound.parkedReceivers_eq
  have hnoSender := hsound.lines.senders.waiters_eq_nil_iff
  have hnoReceiver := hsound.lines.receivers.waiters_eq_nil_iff
  have hlength := hsound.length_buffer_le
  constructor
  case length_buffer_le => omega
  case receivers =>
    intro hwaits
    -- a debt of values means that none is in the buffer
    have howed : exchange.channel.filledSlots.permits.toInt < 0 :=
      not_le.mp (mt hnoReceiver.mpr hwaits)
    refine ⟨List.length_eq_zero_iff.mp ?_, hnoSender.mpr ?_⟩ <;> omega
  case senders =>
    intro hwaits
    -- and a debt of slots that all of them are filled
    have howed : exchange.channel.emptySlots.permits.toInt < 0 :=
      not_le.mp (mt hnoSender.mpr hwaits)
    refine ⟨?_, hnoReceiver.mpr ?_⟩ <;> omega

end Exchange

/-! ## Networks -/

namespace Network

variable {m n : ℕ} {network : Network m n}

/-- Nobody is ready, and no channel is half served. -/
structure Quiescent (network : Network m n) (capacities : Vector ℕ n) : Prop where
  ready_eq : network.fabric.ready = []
  served : ∀ k, (network.fabric.channel k).Served (capacities.get k)
  /-- Every member that is in the middle of an operation waits in its channel. -/
  senders : ∀ k task, task ∈ (network.fabric.channel k).emptySlots.waiters ↔
    ∃ value, network.engaged task = some (.sending k value)
  receivers : ∀ k task, task ∈ (network.fabric.channel k).filledSlots.waiters ↔
    network.engaged task = some (.receiving k)

section Waiting

variable {capacities : Vector ℕ n} {k : Fin n}

/-- Somebody waits for a value of the channel. -/
def IsAwaited (network : Network m n) (k : Fin n) : Prop :=
  ∃ task, network.engaged task = some (.receiving k)

/-- Somebody waits with a value for the channel. -/
def IsBlocked (network : Network m n) (k : Fin n) : Prop :=
  ∃ task value, network.engaged task = some (.sending k value)

theorem engaged_of_reading {task : Fin m} {node : Node n} {port : Port}
    (hmember : network.member task = .node node) (hpending : node.pending = some (.read port))
    (hport : node.ports port = some k) : network.engaged task = some (.receiving k) := by
  rw [engaged, hmember]
  change node.engagement = _
  rw [Node.engagement, hpending]
  exact PortOperation.engagement_read hport

theorem engaged_of_writing {task : Fin m} {node : Node n} {port : Port} {value : Int64}
    (hmember : network.member task = .node node)
    (hpending : node.pending = some (.write port value)) (hport : node.ports port = some k) :
    network.engaged task = some (.sending k value) := by
  rw [engaged, hmember]
  change node.engagement = _
  rw [Node.engagement, hpending]
  exact PortOperation.engagement_write hport value

theorem Quiescent.of_isAwaited (hquiescent : network.Quiescent capacities)
    (hawaited : network.IsAwaited k) :
    (network.fabric.channel k).buffer = [] ∧ ¬ network.IsBlocked k := by
  obtain ⟨task, hengaged⟩ := hawaited
  have hwaits := (hquiescent.receivers k task).mpr hengaged
  obtain ⟨hempty, hnobody⟩ := (hquiescent.served k).receivers (List.ne_nil_of_mem hwaits)
  refine ⟨hempty, ?_⟩
  rintro ⟨other, value, hother⟩
  have hsends := (hquiescent.senders k other).mpr ⟨value, hother⟩
  exact List.ne_nil_of_mem hsends hnobody

end Waiting

/-- If nobody is ready, then nobody has been woken. -/
theorem tally_eq_zero_of_ready (hready : network.fabric.ready = []) {counted : Phase → Bool}
    (hidle : counted .idle = false)
    (hwaits : ∀ operation : Engagement n, counted (operation.phase false) = false) (k : Fin n) :
    Exchange.tally counted (network.fabric.exchange network.engaged k).phase = 0 := by
  refine Finset.card_eq_zero.mpr (Finset.filter_eq_empty_iff.mpr fun task _ => ?_)
  have hout : decide (task ∈ network.fabric.ready) = false := by simp [hready]
  simp only [Bool.not_eq_true, Fabric.exchange, hout]
  cases network.engaged task with
  | none => exact hidle
  | some operation =>
      rw [Engagement.phaseAt]
      split
      · exact hwaits operation
      · exact hidle

theorem Sound.quiescent {users : Fin n → Finset (Fin m)} {capacities : Vector ℕ n}
    (hsound : network.Sound users) (hready : network.fabric.ready = [])
    (hcapacity : ∀ k, (network.fabric.channel k).capacity = capacities.get k) :
    network.Quiescent capacities where
  ready_eq := hready
  served := by
    intro k
    have hsenders : (network.fabric.exchange network.engaged k).wokenSenders = 0 :=
      tally_eq_zero_of_ready hready rfl (fun operation => by cases operation <;> rfl) k
    have hreceivers : (network.fabric.exchange network.engaged k).wokenReceivers = 0 :=
      tally_eq_zero_of_ready hready rfl (fun operation => by cases operation <;> rfl) k
    rw [← hcapacity k]
    exact (hsound.fabric.exchange k).served hsenders hreceivers
  senders k task := by
    rw [hsound.fabric.mem_emptySlots_iff, hready]
    simp
  receivers k task := by
    rw [hsound.fabric.mem_filledSlots_iff, hready]
    simp

end Network

/-! ## Benches -/

namespace Bench

open Network (Path)

variable {n : ℕ} {wiring : Wiring n} {suite : Suite} {discipline : Discipline}
  {operations : List (Operation wiring.size)} {bench : Bench wiring.size n}

/-- Channels keep the capacities that they are wired with. -/
theorem capacity_of_performAll (hfresh : ∀ node ∈ wiring.nodes, node.IsFresh)
    (hroom : ∀ k, wiring.capacities.get k + wiring.size ≤ 2 ^ 63 - 1)
    (hperform : (ofWiring wiring suite discipline).performAll operations = .ok bench) (k : Fin n) :
    (bench.network.fabric.channel k).capacity = wiring.capacities.get k := by
  obtain ⟨hpath, -⟩ : Path (fun _ => True) .resuming _ _ .resuming bench.network ∧ _ :=
    path_of_performAll (isQuiet_ofWiring wiring suite discipline) (fun _ _ _ => trivial) hperform
  have hreplay := hpath.replay (sound_ofWiring hfresh hroom suite discipline)
    fun task _ _ _ => Finset.mem_univ task
  calc (bench.network.fabric.channel k).capacity
      = ((ofWiring wiring suite discipline).network.fabric.channel k).capacity :=
        capacity_replay hreplay k
    _ = wiring.capacities.get k := by rw [channel_ofWiring]; rfl

/-- Whatever has been done with a bench, it is quiescent once nobody is ready. -/
theorem quiescent_of_ready (hfresh : ∀ node ∈ wiring.nodes, node.IsFresh)
    (hroom : ∀ k, wiring.capacities.get k + wiring.size ≤ 2 ^ 63 - 1)
    (hperform : (ofWiring wiring suite discipline).performAll operations = .ok bench)
    (hready : bench.network.fabric.ready = []) : bench.network.Quiescent wiring.capacities :=
  ((performAll_sound (sound_ofWiring hfresh hroom suite discipline) operations).of_ok
    hperform).quiescent hready (capacity_of_performAll hfresh hroom hperform)

theorem ready_of_settle {m : ℕ} {bench next : Bench m n} (hsettle : bench.settle = .ok next) :
    next.network.fabric.ready = [] := by
  obtain ⟨⟨settled, network⟩, hnetwork, hpair⟩ := bind_eq_ok.mp hsettle
  cases hpair
  obtain ⟨-, hready⟩ : Path (fun _ => True) .resuming _ _ .resuming network ∧ _ :=
    Network.path_of_settle hnetwork
  exact hready

/-- Whatever has been done with a bench, settling it does not fault and leaves no channel
half served.  In lockstep, neither does a tick. -/
theorem quiescent_of_performAll (hfresh : ∀ node ∈ wiring.nodes, node.IsFresh)
    (hroom : ∀ k, wiring.capacities.get k + wiring.size ≤ 2 ^ 63 - 1)
    (hperform : (ofWiring wiring suite discipline).performAll operations = .ok bench) :
    (discipline = .lockstep →
        ∃ next, bench.tick = .ok next ∧ next.network.Quiescent wiring.capacities) ∧
      (∃ next, bench.settle = .ok next ∧ next.network.Quiescent wiring.capacities) ∧
      ∀ budget, ∃ ticks next, bench.run budget = .ok (ticks, next) ∧
        next.network.Quiescent wiring.capacities := by
  have hsound := (performAll_sound (sound_ofWiring hfresh hroom suite discipline) operations).of_ok
    hperform
  obtain ⟨hpath, hquiet⟩ : Path (fun _ => True) .resuming _ _ .resuming bench.network ∧ _ :=
    path_of_performAll (isQuiet_ofWiring wiring suite discipline) (fun _ _ _ => trivial) hperform
  -- one more operation is the last of a longer list
  have hnext : ∀ (operation : Operation wiring.size) (next : Bench wiring.size n),
      bench.perform operation = .ok next → next.network.fabric.ready = [] →
        next.network.Quiescent wiring.capacities := by
    intro operation next hoperation hready
    have hlast : bench.performAll [operation] = .ok next := by rw [performAll, hoperation]; rfl
    exact quiescent_of_ready hfresh hroom (performAll_append.mpr ⟨bench, hperform, hlast⟩) hready
  refine ⟨?_, ?_, ?_⟩
  · intro hlockstep
    obtain ⟨next, htick, -⟩ := tick_sound hsound
    obtain ⟨hticked, hready⟩ : Path (fun _ => True) .resuming _ _ .resuming next.network ∧ _ :=
      path_of_tick hquiet htick
    have hdiscipline : next.network.discipline = .lockstep := by
      rw [hticked.discipline_eq, hpath.discipline_eq]
      exact hlockstep
    exact ⟨next, htick, hnext .tick next htick (hready hdiscipline)⟩
  · obtain ⟨next, hsettle, -⟩ := settle_sound hsound
    exact ⟨next, hsettle, hnext .settle next hsettle (ready_of_settle hsettle)⟩
  · intro budget
    obtain ⟨⟨ticks, next⟩, hrun, -⟩ := run_sound hsound budget
    obtain ⟨ended, -, hrest⟩ := bind_eq_ok.mp hrun
    obtain ⟨settled, hsettle, hpair⟩ := bind_eq_ok.mp hrest
    cases hpair
    have hoperation : bench.perform (.run budget) = .ok next := by rw [perform, hrun]; rfl
    exact ⟨_, next, hrun, hnext (.run budget) next hoperation (ready_of_settle hsettle)⟩

/-- The node of the relay gets a program that never reads while it waits for a value.  No
channel is left half served, neither by the next tick nor by settling. -/
theorem quiescent_relay :
    (∀ node ∈ relay.nodes, node.IsFresh) ∧
      (∀ k, relay.capacities.get k + relay.size ≤ 2 ^ 63 - 1) ∧
      ∃ bench, (ofWiring relay ⟨⟨[(0, [7, 8])]⟩, ⟨[(0, [7, 8])]⟩⟩ .lockstep).performAll
          [.tick, .tick, .tick, .load ⟨0, by decide⟩ "NOP"] = .ok bench ∧
        (∃ next, bench.tick = .ok next ∧ next.network.Quiescent relay.capacities) ∧
        ∃ next, bench.settle = .ok next ∧ next.network.Quiescent relay.capacities := by
  have hroom : ∀ k, relay.capacities.get k + relay.size ≤ 2 ^ 63 - 1 := by decide
  obtain ⟨bench, hperform, -⟩ := performAll_sound
    (sound_ofWiring isFresh_relay hroom ⟨⟨[(0, [7, 8])]⟩, ⟨[(0, [7, 8])]⟩⟩ .lockstep)
    [.tick, .tick, .tick, .load ⟨0, by decide⟩ "NOP"]
  obtain ⟨htick, hsettle, -⟩ := quiescent_of_performAll isFresh_relay hroom hperform
  exact ⟨isFresh_relay, hroom, bench, hperform, htick rfl, hsettle⟩

end Bench

end NodeGrid

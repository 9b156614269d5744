import NodeGrid.Proofs.Bench.Operations
import NodeGrid.Proofs.Network.Trace

/-!
# What settling does

Settling resumes whoever is ready until nobody is, and a resumed task can make others
ready, so the number of ready tasks says nothing about how long it goes on.  What every
resumed task is engaged in does.  Whoever ends a send is done with its step, and whoever
ends a receive is done with it or goes on to a send; so a task that is sending can be
resumed once more, and one that is receiving twice (`Fabric.Resumes.resumesLeft_lt`).
Nobody else loses or gains by it (`Sound.resumption`).

`settleLogged` settles and keeps a log of the tasks that it resumes.  By induction on the
log, the resumed tasks are in flight, each of them is in it at most twice, and the steps
that settle are those that are in flight no more (`Sound.settlement`).
-/

namespace NodeGrid

variable {m n : ℕ}

/-! ## How often a task can be resumed -/

/-- How often a task that is engaged in the given way can still be resumed in its step. -/
def resumesLeft : Option (Engagement n) → ℕ
  | none => 0
  | some (.sending _ _) => 1
  | some (.receiving _) => 2

theorem resumesLeft_le (engagement : Option (Engagement n)) :
    resumesLeft engagement ≤ 2 * engagement.isSome.toNat := by
  rcases engagement with _ | operation
  · exact le_rfl
  · cases operation <;> simp [resumesLeft]

namespace Fabric

variable {τ : Type} {reach : Fin n → Prop} {task : τ} {fabric rest : Fabric τ n}
  {deeds : List (Deed n)} {engagement after : Option (Engagement n)}

theorem Offers.resumesLeft_le (hoffers : fabric.Offers reach task deeds rest after) :
    resumesLeft after ≤ 1 := by
  cases hoffers with
  | nothing => exact Nat.zero_le 1
  | @send k value status rest hreach hsend => cases status <;> simp [resumesLeft]

theorem Resumes.resumesLeft_lt (hresumes : fabric.Resumes reach task engagement deeds rest after) :
    resumesLeft after < resumesLeft engagement := by
  cases hresumes with
  | delivers => exact Nat.one_pos
  | takes hfinish hoffers => exact Nat.lt_succ_of_le hoffers.resumesLeft_le

/-- Whoever is resumed goes on with its step and begins none. -/
theorem Resumes.begin_notMem (hresumes : fabric.Resumes reach task engagement deeds rest after) :
    .begin ∉ deeds := by
  cases hresumes with
  | delivers => simp
  | takes hfinish hoffers => cases hoffers <;> simp

end Fabric

namespace Network

variable {network next last : Network m n} {users : Fin n → Finset (Fin m)} {task : Fin m}
  {member : Participant n} {inFlight : Bool} {fabric : Fabric (Fin m) n} {settled others : ℕ}

/-- How often the tasks of the network can still be resumed in their steps. -/
def resumesAhead (network : Network m n) : ℕ :=
  total (fun member => resumesLeft member.engagement) network.members.toList

theorem pending_eq_total (network : Network m n) :
    network.pending = total Bool.toNat network.inFlight.toList := by
  rw [pending]
  induction network.inFlight.toList with
  | nil => rfl
  | cons first rest ih =>
      rw [List.count_cons, total_cons, ih]
      cases first <;> simp [Nat.add_comm]

/-- No step in flight has its task resumed more than twice. -/
theorem Sound.resumesAhead_le (hsound : network.Sound users) :
    network.resumesAhead ≤ 2 * network.pending := by
  have hflags : network.inFlight.toList =
      network.members.toList.map fun member => member.engagement.isSome := by
    refine List.ext_getElem (by simp) fun index hflag _ => ?_
    simpa [isPending_eq_getElem, engaged, member_eq_getElem] using
      hsound.inFlight ⟨index, by simpa using hflag⟩
  rw [resumesAhead, pending_eq_total, hflags]
  induction network.members.toList with
  | nil => exact le_rfl
  | cons first rest ih =>
      have hfirst := resumesLeft_le first.engagement
      rw [List.map_cons, total_cons, total_cons]
      omega

theorem resumesAhead_put :
    (network.put task member inFlight fabric).resumesAhead + resumesLeft (network.engaged task) =
      network.resumesAhead + resumesLeft member.engagement := by
  have htask : task.val < network.members.toList.length := by simp
  have hset := total_set (fun member => resumesLeft member.engagement) htask member
  simpa only [resumesAhead, put, engaged, member_eq_getElem, Vector.toList_set,
    Vector.getElem_toList] using hset

theorem pending_put :
    (network.put task member inFlight fabric).pending + (network.isPending task).toNat =
      network.pending + inFlight.toNat := by
  have htask : task.val < network.inFlight.toList.length := by simp
  have hset := total_set Bool.toNat htask inFlight
  simpa only [pending_eq_total, put, isPending_eq_getElem, Vector.toList_set,
    Vector.getElem_toList] using hset

/-! ## One task -/

/-- What it means for a network that a task is resumed. -/
structure Resumption (network : Network m n) (task : Fin m) (settled : ℕ) (next : Network m n) :
    Prop where
  isPending : network.isPending task = true
  resumesLeft_lt : resumesLeft (next.engaged task) < resumesLeft (network.engaged task)
  resumesAhead_lt : next.resumesAhead < network.resumesAhead
  /-- The step settles or stays in flight. -/
  settled_eq : settled + next.pending = network.pending
  member_eq : ∀ other, other ≠ task → next.member other = network.member other
  isPending_eq : ∀ other, other ≠ task → next.isPending other = network.isPending other
  begin_notMem : ∀ entry ∈ network.resumeTrace, entry.2 ≠ .begin

theorem Sound.resumption (hsound : network.Sound users)
    (hresume : network.resumeNext = .ok (some (settled, next))) :
    ∃ task ready, network.fabric.ready = task :: ready ∧
      network.Resumption task settled next := by
  obtain ⟨task, ready, progress, member, fabric, hready, hmember, rfl, rfl⟩ :=
    resumeNext_eq_some_iff.mp hresume
  have hsome : (network.engaged task).isSome :=
    hsound.fabric.engaged_of_ready task (by simp [hready])
  have hpending : network.isPending task = true := (hsound.inFlight task).trans hsome
  have hresumes := (hsound.members task).resumes_of_resume
    (Option.isSome_iff_ne_none.mp hsome) hmember
  have hlt : resumesLeft member.engagement < resumesLeft (network.engaged task) :=
    hresumes.resumesLeft_lt
  refine ⟨task, ready, hready, ?_⟩
  constructor
  case isPending => exact hpending
  case resumesLeft_lt => rwa [engaged_put, Function.update_self]
  -- the sum over all members sinks with the part of this one
  case resumesAhead_lt =>
    have hahead : (network.put task member (progress = .pending && network.isPending task)
      fabric).resumesAhead + _ = _ := resumesAhead_put
    omega
  -- a step that settles is no longer in flight, and no other one changes
  case settled_eq =>
    have hcount : (network.put task member (progress = .pending && network.isPending task)
      fabric).pending + _ = _ := pending_put
    rw [hpending] at hcount ⊢
    cases progress with
    | settled => simpa [Nat.add_comm] using hcount
    | pending => simpa using hcount
  case member_eq => exact fun other hne => member_put_of_ne hne
  case isPending_eq => exact fun other hne => isPending_put_of_ne hne
  case begin_notMem =>
    rintro ⟨other, deed⟩ hentry rfl
    simp only [resumeTrace, hready, logged, List.mem_map, Prod.mk.injEq] at hentry
    obtain ⟨deed, hdeed, -, rfl⟩ := hentry
    exact hresumes.begin_notMem hdeed

/-! ## All tasks -/

/-- Settles with a log of the tasks that are resumed, and of the network that each of them is
resumed in. -/
def settleLogged (network : Network m n) :
    Except Fault (List (Fin m × Network m n) × ℕ × Network m n) :=
  match hresume : network.resumeNext with
  | .error broken => .error broken
  | .ok none => .ok ([], 0, network)
  | .ok (some (first, next)) =>
    have := workload_lt_of_resumeNext hresume
    do
      let (log, others, last) ← next.settleLogged
      return ((network.fabric.ready.take 1).map (·, network) ++ log, first + others, last)
termination_by network.workload

/-- The log changes nothing else. -/
theorem map_settleLogged (network : Network m n) :
    network.settleLogged.map Prod.snd = network.settle := by
  fun_induction Network.settle network with
  | case1 network broken hresume =>
      rw [settleLogged]
      split <;> simp_all [Except.map]
  | case2 network hresume =>
      rw [settleLogged]
      split <;> simp_all [Except.map]
  | case3 network first next hresume hlt ih =>
      rw [settleLogged, ← ih]
      split
      · simp_all
      · simp_all
      · rename_i settled between hsame
        rw [hresume] at hsame
        cases hsame
        cases next.settleLogged <;> rfl

/-- What settling does to a network, with the given log. -/
structure Settlement (network : Network m n) (log : List (Fin m × Network m n)) (settled : ℕ)
    (last : Network m n) : Prop where
  /-- A task is resumed only while its step is in flight, which it was from the beginning. -/
  isPending : ∀ entry ∈ log,
    entry.2.isPending entry.1 = true ∧ network.isPending entry.1 = true
  count_le : ∀ task, (log.map Prod.fst).count task ≤ resumesLeft (network.engaged task)
  length_le : log.length ≤ network.resumesAhead
  /-- The steps that settle are those that are in flight no more. -/
  settled_eq : settled + last.pending = network.pending
  ready_eq : last.fabric.ready = []
  /-- Settling leaves everybody else alone. -/
  idle : ∀ task, network.isPending task = false →
    last.isPending task = false ∧ last.member task = network.member task
  begin_notMem : ∀ entry ∈ network.settleTrace, entry.2 ≠ .begin

theorem settlement_nil (hresume : network.resumeNext = .ok none) :
    network.Settlement [] 0 network where
  isPending := by simp
  count_le _ := Nat.zero_le _
  length_le := Nat.zero_le _
  settled_eq := Nat.zero_add _
  ready_eq := ready_of_resumeNext hresume
  idle _ hidle := ⟨hidle, rfl⟩
  begin_notMem := by
    rw [settleTrace]
    split <;> simp_all

theorem Settlement.cons {log : List (Fin m × Network m n)}
    (hrest : next.Settlement log others last)
    (hfirst : network.Resumption task settled next)
    (hresume : network.resumeNext = .ok (some (settled, next))) :
    network.Settlement ((task, network) :: log) (settled + others) last where
  isPending := by
    intro entry hentry
    rcases List.mem_cons.mp hentry with rfl | hlater
    · exact ⟨hfirst.isPending, hfirst.isPending⟩
    · obtain ⟨hthen, hnext⟩ := hrest.isPending entry hlater
      refine ⟨hthen, ?_⟩
      -- who is resumed later was in flight already, or is the one of now
      by_cases hother : entry.1 = task
      · rw [hother, hfirst.isPending]
      · rwa [← hfirst.isPending_eq _ hother]
  count_le := by
    intro other
    have hcount := hrest.count_le other
    rw [List.map_cons, List.count_cons]
    by_cases hother : other = task
    · -- the resume of now uses up one of those that were left to the member
      subst hother
      have hlt := hfirst.resumesLeft_lt
      simp only [beq_self_eq_true, if_true]
      omega
    · have hsame : next.engaged other = network.engaged other :=
        congrArg Participant.engagement (hfirst.member_eq other hother)
      rw [hsame] at hcount
      simpa [Ne.symm hother] using hcount
  length_le := by
    have hlength := hrest.length_le
    have hlt := hfirst.resumesAhead_lt
    rw [List.length_cons]
    omega
  settled_eq := by
    have hpending := hrest.settled_eq
    have hstep := hfirst.settled_eq
    omega
  ready_eq := hrest.ready_eq
  idle := by
    intro other hidle
    -- a member that is idle is not the one that is resumed
    have hother : other ≠ task := by
      rintro rfl
      rw [hfirst.isPending] at hidle
      cases hidle
    obtain ⟨hlast, hmember⟩ := hrest.idle other (by rw [hfirst.isPending_eq other hother, hidle])
    exact ⟨hlast, hmember.trans (hfirst.member_eq other hother)⟩
  begin_notMem := by
    have htrace : network.settleTrace = network.resumeTrace ++ next.settleTrace := by
      rw [settleTrace]
      split <;> simp_all
    rw [htrace]
    intro entry hentry
    rcases List.mem_append.mp hentry with hnow | hlater
    · exact hfirst.begin_notMem entry hnow
    · exact hrest.begin_notMem entry hlater

theorem Sound.settlement (hsound : network.Sound users) :
    Yields network.settleLogged fun (log, settled, last) =>
      network.Settlement log settled last := by
  fun_induction Network.settleLogged network with
  | case1 network broken hresume => exact absurd hresume (hsound.resumeNext.ne_error broken)
  | case2 network hresume => exact yields_ok.mpr (settlement_nil hresume)
  | case3 network first next hresume hlt ih =>
      obtain ⟨task, ready, hready, hfirst⟩ := hsound.resumption hresume
      refine (ih (hsound.resumeNext.of_ok hresume first next rfl)).bind ?_
      rintro ⟨log, others, last⟩ hrest
      rw [hready]
      exact yields_ok.mpr (hrest.cons hfirst hresume)

end Network

namespace Bench

variable {wiring : Wiring n} {suite : Suite} {discipline : Discipline}
  {operations : List (Operation wiring.size)} {bench : Bench wiring.size n}

/-- Whatever has been done with a bench, settling it comes to its end and begins no step.  It
resumes only tasks that are in flight, each of them at most twice; it returns by how many steps
fewer are in flight; and there is nothing left to settle after it. -/
theorem settlement_of_performAll (hfresh : ∀ node ∈ wiring.nodes, node.IsFresh)
    (hroom : ∀ k, wiring.capacities.get k + wiring.size ≤ 2 ^ 63 - 1)
    (hperform : (ofWiring wiring suite discipline).performAll operations = .ok bench) :
    ∃ log settled last,
      bench.network.settleLogged = .ok (log, settled, last) ∧
      bench.network.settle = .ok (settled, last) ∧
      bench.settle = .ok { bench with network := last } ∧
      bench.network.Settlement log settled last ∧
      (∀ task, (log.map Prod.fst).count task ≤ 2) ∧
      log.length ≤ 2 * bench.network.pending ∧
      last.settle = .ok (0, last) := by
  have hsound := (performAll_sound (sound_ofWiring hfresh hroom suite discipline) operations).of_ok
    hperform
  obtain ⟨⟨log, settled, last⟩, hlogged, hsettlement⟩ := hsound.settlement
  have hsettle : bench.network.settle = .ok (settled, last) := by
    rw [← Network.map_settleLogged, hlogged]
    rfl
  refine ⟨log, settled, last, hlogged, hsettle, ?_, hsettlement, fun task => ?_, ?_, ?_⟩
  · rw [settle, hsettle]
    rfl
  · -- the bound of the settlement depends on the member, this one does not
    have hleft := resumesLeft_le (bench.network.engaged task)
    have hflag := (bench.network.engaged task).isSome.toNat_le
    exact (hsettlement.count_le task).trans (by omega)
  · exact hsettlement.length_le.trans hsound.resumesAhead_le
  · exact (Network.settle_of_ready_nil hsettlement.ready_eq).1

/-- After a tick of the relay only its node is ready, with the first value; settling resumes it,
and then the sink, which it wakes. -/
theorem settlement_relay :
    (∀ node ∈ relay.nodes, node.IsFresh) ∧
      (∀ k, relay.capacities.get k + relay.size ≤ 2 ^ 63 - 1) ∧
      ∃ bench, (ofWiring relay ⟨⟨[(0, [7, 8])]⟩, ⟨[(0, [7, 8])]⟩⟩ .firstSettled).performAll
          [.tick] = .ok bench ∧
        ∃ log settled last, bench.network.settleLogged = .ok (log, settled, last) ∧
          bench.network.settle = .ok (settled, last) ∧
          bench.settle = .ok { bench with network := last } ∧
          bench.network.Settlement log settled last ∧
          (∀ task, (log.map Prod.fst).count task ≤ 2) ∧
          log.length ≤ 2 * bench.network.pending ∧
          last.settle = .ok (0, last) := by
  have hroom : ∀ k, relay.capacities.get k + relay.size ≤ 2 ^ 63 - 1 := by decide
  obtain ⟨bench, hperform, -⟩ := performAll_sound
    (sound_ofWiring isFresh_relay hroom ⟨⟨[(0, [7, 8])]⟩, ⟨[(0, [7, 8])]⟩⟩ .firstSettled)
    [.tick]
  exact ⟨isFresh_relay, hroom, bench, hperform,
    settlement_of_performAll isFresh_relay hroom hperform⟩

end Bench

end NodeGrid

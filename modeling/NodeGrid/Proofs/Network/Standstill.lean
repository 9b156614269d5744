import NodeGrid.Proofs.Network.Trace
import NodeGrid.Proofs.Node.Suspension

/-!
# Networks at a standstill

A tick in which no step settles leaves the network at a standstill.  The tick has
resumed whoever was ready at its end, and a member that is resumed without settling
had been waiting with a read (`debt_of_resume`); so all that were ready were readers,
at the end of the tick and, going back visit by visit, at every moment of it
(`Sound.visit_zero`).  While only readers are ready, every abandoned operation can be
withdrawn (`Sound.abandoned_of_refused`), since what refuses a withdrawal is a woken
sender, or the operation itself after it was woken.  So every visit of the tick has
begun a step that waits, or has found one that goes on waiting, and nobody is left to
wake anybody (`Sound.deadlocked_of_tick`).

From a standstill nothing moves: a tick does nothing but count a cycle for every node
(`Deadlocked.tick`).
-/

namespace NodeGrid

variable {τ : Type} {n : ℕ}

/-! ## Members that wait -/

namespace Node

variable {node after : Node n} {task : τ} {fabric rest : Fabric τ n} {progress : Progress}

theorem abandoned_of_step (hstep : node.step task fabric = .ok (progress, after, rest)) :
    after.abandoned = node.abandoned := by
  obtain ⟨demand, hdemand, hserved⟩ := served_of_step hstep
  rw [hserved.abandoned_eq, (continues_demand hdemand).abandoned_eq]

/-- Only a node that waited with a read can come to wait again. -/
theorem debt_of_resume (hresume : node.resume task fabric = .ok (.pending, after, rest)) :
    0 < node.debt ∧ after.abandoned = node.abandoned := by
  -- a step that goes on with a write, or with what was abandoned, is over then
  cases hpending : node.pending with
  | none =>
      simp only [resume, hpending, finishAbandoned] at hresume
      split at hresume
      · obtain ⟨k, -, hresume⟩ := bind_eq_ok.mp hresume
        obtain ⟨received, -, hresume⟩ := bind_eq_ok.mp hresume
        cases hresume
      · obtain ⟨k, -, hresume⟩ := bind_eq_ok.mp hresume
        cases hresume
      · cases hresume
  | some operation =>
      cases operation with
      | write port value =>
          simp only [resume, hpending] at hresume
          obtain ⟨k, -, hresume⟩ := bind_eq_ok.mp hresume
          cases hresume
      | read port =>
          -- having read, the node may wait once more, to write
          obtain ⟨value, pause, between, hpause, hserve⟩ :=
            exists_pause_of_resume _ _ _ hpending hresume
          refine ⟨by simp [debt, hpending], ?_⟩
          rw [(Pause.served_of_serve hserve).abandoned_eq,
            (continues_pauseAfterRead hpause).abandoned_eq]

end Node

namespace Participant

/-- The port operation that a replaced program left waiting; only nodes have one. -/
def abandoned : Participant n → Option PortOperation
  | .node processor => processor.abandoned
  | .source _ | .sink _ => none

variable {participant after : Participant n} {task : τ} {fabric rest : Fabric τ n}
  {progress : Progress} {allowed : Fin n → Prop}

@[simp] theorem abandoned_stall : participant.stall.abandoned = participant.abandoned := by
  cases participant <;> rfl

@[simp] theorem debt_stall : participant.stall.debt = participant.debt := by
  cases participant <;> rfl

theorem abandoned_of_step (hstep : participant.step task fabric = .ok (progress, after, rest)) :
    after.abandoned = participant.abandoned := by
  cases participant with
  | node processor =>
      obtain ⟨⟨progress, next, rest⟩, hnode, hpair⟩ := bind_eq_ok.mp hstep
      cases hpair
      exact Node.abandoned_of_step hnode
  | source feed =>
      cases hstep
      rfl
  | sink store =>
      obtain ⟨⟨progress, next, rest⟩, -, hpair⟩ := bind_eq_ok.mp hstep
      cases hpair
      rfl

/-- Only a node that waited with a read can come to wait again. -/
theorem debt_of_resume (hresume : participant.resume task fabric = .ok (.pending, after, rest)) :
    0 < participant.debt ∧ after.abandoned = participant.abandoned := by
  cases participant with
  | node processor =>
      obtain ⟨⟨progress, next, rest⟩, hnode, hpair⟩ := bind_eq_ok.mp hresume
      cases hpair
      exact Node.debt_of_resume hnode
  | source feed => cases hresume
  | sink store =>
      obtain ⟨⟨next, rest⟩, -, hpair⟩ := bind_eq_ok.mp hresume
      cases hpair

theorem Sound.abandoned_of_idle (hsound : participant.Sound allowed)
    (hidle : participant.engagement = none) : participant.abandoned = none := by
  cases participant with
  | node processor => exact ((Node.Sound.engagement_eq_none_iff hsound).mp hidle).2
  | source feed => rfl
  | sink store => rfl

/-- A node that waits with a read is engaged in receiving, for its present program. -/
theorem Sound.receiving_of_debt (hsound : participant.Sound allowed)
    (hdebt : 0 < participant.debt) :
    participant.abandoned = none ∧ ∃ k, participant.engagement = some (.receiving k) := by
  cases participant with
  | source feed => cases hdebt
  | sink store => cases hdebt
  | node processor =>
      obtain ⟨port, hpending⟩ : ∃ port, processor.pending = some (.read port) := by
        simp only [debt, Node.debt] at hdebt
        split at hdebt
        · exact ⟨_, ‹_›⟩
        · cases hdebt
      obtain ⟨k, hport, -⟩ := Node.Sound.outstanding hsound _ (Or.inl hpending)
      have habandoned : processor.abandoned = none := by
        simpa [hpending] using Node.Sound.not_both hsound
      refine ⟨habandoned, k, ?_⟩
      rw [engagement, Node.engagement, hpending, Option.some_or, Option.bind_some]
      exact PortOperation.engagement_read hport

end Participant

/-! ## Ready tasks stay ready -/

namespace Fabric

variable {reach : Fin n → Prop} {task : τ} {fabric rest : Fabric τ n} {deeds : List (Deed n)}
  {engagement after : Option (Engagement n)} {k : Fin n} {value : Int64}

theorem ready_receive {status : ReceiveStatus}
    (hreceive : fabric.receive k task = .ok (status, rest)) : fabric.ready ⊆ rest.ready := by
  obtain ⟨⟨status, woken, channel⟩, -, hpair⟩ := bind_eq_ok.mp hreceive
  cases hpair
  exact List.subset_append_left _ _

theorem ready_finishReceive (hfinish : fabric.finishReceive k = .ok (value, rest)) :
    fabric.ready ⊆ rest.ready := by
  obtain ⟨⟨value, channel⟩, -, hpair⟩ := bind_eq_ok.mp hfinish
  cases hpair
  exact List.subset_append_left _ _

theorem Offers.ready_subset (hoffers : fabric.Offers reach task deeds rest after) :
    fabric.ready ⊆ rest.ready := by
  cases hoffers with
  | nothing => exact List.Subset.refl _
  | send hreach hsend =>
      obtain rfl : (fabric.send _ _ task).2 = rest := by rw [hsend]
      exact List.subset_append_left _ _

theorem Begins.ready_subset (hbegins : fabric.Begins reach task deeds rest after) :
    fabric.ready ⊆ rest.ready := by
  cases hbegins with
  | offers hoffers => exact hoffers.ready_subset
  | waits hreach hreceive => exact ready_receive hreceive
  | takes hreach hreceive hoffers =>
      exact List.Subset.trans (ready_receive hreceive) hoffers.ready_subset

theorem Resumes.ready_subset (hresumes : fabric.Resumes reach task engagement deeds rest after) :
    fabric.ready ⊆ rest.ready := by
  cases hresumes with
  | delivers => exact List.subset_append_left _ _
  | takes hfinish hoffers =>
      exact List.Subset.trans (ready_finishReceive hfinish) hoffers.ready_subset

theorem Withdraws.ready_subset [DecidableEq τ]
    (hwithdraws : fabric.Withdraws task engagement deeds rest) : fabric.ready ⊆ rest.ready := by
  cases hwithdraws with
  | send hcancel =>
      obtain ⟨channel, -, rfl⟩ := Option.map_eq_some_iff.mp hcancel
      exact List.subset_append_left _ _
  | receive hcancel =>
      obtain ⟨channel, -, rfl⟩ := Option.map_eq_some_iff.mp hcancel
      exact List.subset_append_left _ _

/-! ## Refused withdrawals -/

/-- What the task is engaged in cannot be taken back. -/
inductive Refuses [DecidableEq τ] (task : τ) (fabric : Fabric τ n) :
    Option (Engagement n) → Prop where
  | send {k : Fin n} {value : Int64} (hcancel : fabric.cancelSend k task = none) :
      Refuses task fabric (some (.sending k value))
  | receive {k : Fin n} (hcancel : fabric.cancelReceive k task = none) :
      Refuses task fabric (some (.receiving k))

/-- Only a woken task can stand in the way of a withdrawal, and if it is another one
than the task itself, it is a sender. -/
theorem Sound.mem_ready_of_refuses [Fintype τ] [DecidableEq τ] {users : Fin n → Finset τ}
    {engaged : τ → Option (Engagement n)} (hsound : fabric.Sound users engaged)
    (hengaged : engaged task = engagement) (hrefuses : fabric.Refuses task engagement) :
    task ∈ fabric.ready ∨
      ∃ other ∈ fabric.ready, ∃ k value, engaged other = some (.sending k value) := by
  cases hrefuses with
  | send hcancel => exact Or.inl (hsound.mem_ready_of_cancelSend hengaged hcancel)
  | receive hcancel =>
      refine (hsound.mem_ready_of_cancelReceive hengaged hcancel).imp_right ?_
      rintro ⟨other, hother, value, hsending⟩
      exact ⟨other, hother, _, value, hsending⟩

end Fabric

theorem Node.Sound.refuses_of_withdraw [DecidableEq τ] {node : Node n} {task : τ}
    {fabric : Fabric τ n} {allowed : Fin n → Prop} (hsound : node.Sound allowed)
    (habandoned : node.abandoned ≠ none) (hwithdraw : node.withdraw task fabric = .ok none) :
    fabric.Refuses task node.engagement := by
  obtain ⟨operation, hoperation⟩ := Option.ne_none_iff_exists'.mp habandoned
  -- the abandoned operation is the only one that is left
  have hpending : node.pending = none := hsound.not_both.resolve_right habandoned
  obtain ⟨k, hport, -⟩ := hsound.outstanding operation (Or.inr hoperation)
  unfold Node.withdraw at hwithdraw
  rw [engagement, hpending, hoperation, Option.none_or, Option.bind_some]
  cases operation with
  | read port =>
      change node.ports port = some k at hport
      simp only [hoperation, channel_eq_ok hport, ok_bind] at hwithdraw
      rw [PortOperation.engagement_read hport]
      exact .receive (Option.map_eq_none_iff.mp (Except.ok.inj hwithdraw))
  | write port value =>
      change node.ports port = some k at hport
      simp only [hoperation, channel_eq_ok hport, ok_bind] at hwithdraw
      rw [PortOperation.engagement_write hport]
      exact .send (Option.map_eq_none_iff.mp (Except.ok.inj hwithdraw))

theorem Participant.Sound.refuses_of_withdraw [DecidableEq τ] {participant : Participant n}
    {task : τ} {fabric : Fabric τ n} {allowed : Fin n → Prop} (hsound : participant.Sound allowed)
    (habandoned : participant.abandoned ≠ none)
    (hwithdraw : participant.withdraw task fabric = .ok none) :
    fabric.Refuses task participant.engagement := by
  cases participant with
  | node processor =>
      obtain ⟨withdrawn, hnode, hmap⟩ := bind_eq_ok.mp hwithdraw
      obtain rfl := Option.map_eq_none_iff.mp (Except.ok.inj hmap)
      exact Node.Sound.refuses_of_withdraw hsound habandoned hnode
  | source feed => exact absurd rfl habandoned
  | sink store => exact absurd rfl habandoned

namespace Network

variable {m : ℕ} {network next : Network m n} {users : Fin n → Finset (Fin m)} {task : Fin m}
  {member : Participant n} {inFlight : Bool} {fabric : Fabric (Fin m) n}

/-! ## Ticks in which nothing settles -/

/-- Whoever is ready waited with a read, and so may come to wait again. -/
def ReadersOnly (network : Network m n) : Prop :=
  ∀ task ∈ network.fabric.ready, 0 < (network.member task).debt

/-- A member in the middle of a step of its present program. -/
structure UnderWay (network : Network m n) (task : Fin m) : Prop where
  isPending : network.isPending task = true
  abandoned_eq : (network.member task).abandoned = none

theorem UnderWay.put_of_ne {other : Fin m} (hunderway : network.UnderWay other)
    (hne : other ≠ task) :
    (network.put task member inFlight fabric).UnderWay other where
  isPending := by rw [isPending_put_of_ne hne, hunderway.isPending]
  abandoned_eq := by rw [member_put_of_ne hne, hunderway.abandoned_eq]

theorem underWay_put_self (habandoned : member.abandoned = none) :
    (network.put task member true fabric).UnderWay task where
  isPending := isPending_put_self
  abandoned_eq := by rw [member_put_self, habandoned]

/-- Who was ready before a move of `task` is ready after it. -/
theorem ReadersOnly.of_put (hnext : (network.put task member inFlight fabric).ReadersOnly)
    (hready : ∀ other ∈ network.fabric.ready, other ≠ task → other ∈ fabric.ready)
    (htask : task ∈ network.fabric.ready → 0 < (network.member task).debt) :
    network.ReadersOnly := by
  intro other hother
  by_cases hne : other = task
  · subst hne
    exact htask hother
  · have hdebt := hnext other (hready other hother hne)
    rwa [member_put_of_ne hne] at hdebt

/-- While only readers are ready, every abandoned operation can be withdrawn. -/
theorem Sound.abandoned_of_refused (hsound : network.Sound users) (hreaders : network.ReadersOnly)
    (hrefused : (network.member task).withdraw task network.fabric = .ok none) :
    (network.member task).abandoned = none := by
  -- whoever is ready waits to receive, for its present program
  have hready : ∀ other ∈ network.fabric.ready,
      (network.member other).abandoned = none ∧ ∃ k, network.engaged other = some (.receiving k) :=
    fun other hother => (hsound.members other).receiving_of_debt (hreaders other hother)
  by_contra habandoned
  have hrefuses := (hsound.members task).refuses_of_withdraw habandoned hrefused
  rcases hsound.fabric.mem_ready_of_refuses rfl hrefuses with
    hmem | ⟨other, hmem, k, value, hsending⟩
  · exact habandoned (hready task hmem).1
  · obtain ⟨-, j, hreceiving⟩ := hready other hmem
    rw [hsending] at hreceiving
    cases hreceiving

/-- A step that begins and does not settle. -/
theorem Sound.begin_zero (hsound : network.Sound users) (hidle : network.engaged task = none)
    (hbegin : network.begin task = .ok (0, next)) (hnext : next.ReadersOnly) :
    network.ReadersOnly ∧ next.UnderWay task ∧
      ∀ other, other ≠ task → network.UnderWay other → next.UnderWay other := by
  obtain ⟨⟨progress, member, fabric⟩, hstep, hpair⟩ := bind_eq_ok.mp hbegin
  cases progress with
  | settled => cases hpair
  | pending =>
      cases hpair
      have hmember := hsound.members task
      have hready := (hmember.begins_of_step hidle hstep).ready_subset
      refine ⟨hnext.of_put (fun other hother _ => hready hother) ?_, underWay_put_self ?_, ?_⟩
      · exact fun hmem => absurd hmem (hsound.fabric.not_mem_ready hidle)
      · rw [Participant.abandoned_of_step hstep, hmember.abandoned_of_idle hidle]
      · exact fun other hne hunderway => hunderway.put_of_ne hne

/-- A visit that settles nothing leaves its member in the middle of a step, and found
only readers ready if it leaves only readers ready. -/
theorem Sound.visit_zero (hsound : network.Sound users)
    (hvisit : network.visit task = .ok (0, next)) (hnext : next.ReadersOnly) :
    network.ReadersOnly ∧ next.UnderWay task ∧
      ∀ other, other ≠ task → network.UnderWay other → next.UnderWay other := by
  unfold Network.visit at hvisit
  by_cases hpending : network.isPending task = true
  · rw [if_pos hpending] at hvisit
    obtain ⟨withdrawn, hwithdraw, hvisit⟩ := bind_eq_ok.mp hvisit
    cases withdrawn with
    | none =>
        cases hvisit
        -- stalling changes neither who is ready nor what is owed
        have hreaders : network.ReadersOnly := by
          refine hnext.of_put (fun other hother _ => hother) fun hmem => ?_
          have hdebt := hnext task hmem
          rwa [member_put_self, Participant.debt_stall] at hdebt
        refine ⟨hreaders, underWay_put_self ?_, fun other hne hunderway => hunderway.put_of_ne hne⟩
        rw [Participant.abandoned_stall, hsound.abandoned_of_refused hreaders hwithdraw]
    | some outcome =>
        obtain ⟨member, fabric⟩ := outcome
        obtain ⟨hreleased, hidle⟩ := hsound.withdrawn hpending hwithdraw
        obtain ⟨hreaders, hunderway, hothers⟩ := hreleased.begin_zero hidle hvisit hnext
        -- a withdrawal makes nobody ready
        have hready := ((hsound.members task).withdraws_of_withdraw hwithdraw).ready_subset
        refine ⟨hreaders.of_put (fun other hother _ => hready hother) ?_, hunderway, ?_⟩
        · exact fun hmem => absurd (hready hmem) (hreleased.fabric.not_mem_ready hidle)
        · exact fun other hne hother => hothers other hne (hother.put_of_ne hne)
  · rw [if_neg hpending] at hvisit
    exact hsound.begin_zero (hsound.idle_of_isPending (Bool.not_eq_true _ ▸ hpending)) hvisit hnext

/-- Visits that settle nothing leave all of their members in the middle of steps. -/
theorem Sound.visitAll_zero (hsound : network.Sound users) {tasks : List (Fin m)}
    (hvisit : network.visitAll tasks = .ok (0, next)) (hnext : next.ReadersOnly) :
    network.ReadersOnly ∧
      ∀ task, task ∈ tasks ∨ network.UnderWay task → next.UnderWay task := by
  -- who is ready is known at the end, and comes from the back
  induction tasks generalizing network with
  | nil =>
      cases hvisit
      exact ⟨hnext, by simp⟩
  | cons first rest ih =>
      obtain ⟨⟨begun, between⟩, hfirst, hrest⟩ := bind_eq_ok.mp hvisit
      obtain ⟨⟨others, last⟩, hothers, hpair⟩ := bind_eq_ok.mp hrest
      obtain ⟨hsum, rfl⟩ := Prod.mk.inj (Except.ok.inj hpair)
      -- no visit has settled a step, since all of them together have not
      obtain ⟨rfl, rfl⟩ : begun = 0 ∧ others = 0 := by omega
      obtain ⟨hbetween, hlater⟩ := ih ((hsound.visit first).of_ok hfirst) hothers
      obtain ⟨hreaders, hself, hkept⟩ := hsound.visit_zero hfirst hbetween
      refine ⟨hreaders, fun task htask => hlater task ?_⟩
      by_cases hne : task = first
      · exact Or.inr (hne ▸ hself)
      · rcases htask with hmem | hunderway
        · exact Or.inl (List.mem_of_ne_of_mem hne hmem)
        · exact Or.inr (hkept task hne hunderway)

/-- A task that is resumed and does not settle. -/
theorem Sound.resumeNext_zero (hsound : network.Sound users)
    (hresume : network.resumeNext = .ok (some (0, next))) (hnext : next.ReadersOnly) :
    network.ReadersOnly ∧ ∀ task, network.UnderWay task → next.UnderWay task := by
  obtain ⟨first, ready, progress, member, fabric, hready, hmember, hzero, rfl⟩ :=
    resumeNext_eq_some_iff.mp hresume
  obtain rfl : progress = .pending := by cases progress <;> simp at hzero ⊢
  have hengaged : (network.member first).engagement ≠ none :=
    Option.isSome_iff_ne_none.mp (hsound.fabric.engaged_of_ready first (by simp [hready]))
  -- it waits again, so it was a reader
  obtain ⟨hdebt, habandoned⟩ := Participant.debt_of_resume hmember
  have hsubset := ((hsound.members first).resumes_of_resume hengaged hmember).ready_subset
  refine ⟨hnext.of_put (fun other hother hne => ?_) fun _ => hdebt, ?_⟩
  · rw [hready] at hother
    exact hsubset (List.mem_of_ne_of_mem hne hother)
  · intro task hunderway
    by_cases hne : task = first
    · subst hne
      rw [hunderway.isPending]
      exact underWay_put_self (by rw [habandoned, hunderway.abandoned_eq])
    · exact hunderway.put_of_ne hne

/-- If resuming all that is ready settles nothing, only readers were ready. -/
theorem Sound.settle_zero (hsound : network.Sound users)
    (hsettle : network.settle = .ok (0, next)) :
    network.ReadersOnly ∧ next.fabric.ready = [] ∧
      ∀ task, network.UnderWay task → next.UnderWay task := by
  fun_induction Network.settle network with
  | case1 network broken hresume => cases hsettle
  | case2 network hresume =>
      cases hsettle
      have hready := ready_of_resumeNext hresume
      refine ⟨fun task hmem => ?_, hready, fun _ hunderway => hunderway⟩
      rw [hready] at hmem
      cases hmem
  | case3 network first between hresume hlt ih =>
      obtain ⟨⟨others, last⟩, hrest, hpair⟩ := bind_eq_ok.mp hsettle
      obtain ⟨hsum, rfl⟩ := Prod.mk.inj (Except.ok.inj hpair)
      obtain ⟨rfl, rfl⟩ : first = 0 ∧ others = 0 := by omega
      have hsounds := hsound.resumeNext.of_ok hresume 0 between rfl
      -- the readers that are ready in between were readers before
      obtain ⟨hbetween, hready, hlater⟩ := ih hsounds hrest
      obtain ⟨hreaders, hkept⟩ := hsound.resumeNext_zero hresume hbetween
      exact ⟨hreaders, hready, fun task hunderway => hlater task (hkept task hunderway)⟩

/-- Waiting in vain for the first step to settle is settling. -/
theorem settle_of_settleFirst (hsettle : network.settleFirst = .ok (0, next)) :
    network.settle = .ok (0, next) := by
  fun_induction Network.settleFirst network with
  | case1 network broken hresume => cases hsettle
  | case2 network hresume =>
      cases hsettle
      rw [Network.settle]
      split <;> simp_all
  | case3 network between hresume hlt ih =>
      rw [Network.settle]
      split <;> simp_all
  | case4 network first between hresume hlt hfirst =>
      obtain ⟨rfl, -⟩ := Prod.mk.inj (Except.ok.inj hsettle)
      exact absurd rfl hfirst

/-! ## Standing still -/

/-- Every member waits in a channel, in the middle of a step of its present program,
and nobody is left to wake anybody. -/
structure Deadlocked (network : Network m n) : Prop where
  ready_eq : network.fabric.ready = []
  underWay : ∀ task, network.UnderWay task
  waiting : ∀ task, ∃ k, task ∈ (network.fabric.channel k).emptySlots.waiters ∨
    task ∈ (network.fabric.channel k).filledSlots.waiters

/-- A tick without a step that settles visits all members of a sound network and then
resumes what is ready, and settles nothing in either. -/
theorem Sound.parts_of_tick_zero (hsound : network.Sound users)
    (htick : network.tick = .ok (0, next)) :
    ∃ start visited : Network m n, start.Sound users ∧
      start.visitAll (List.finRange m) = .ok (0, visited) ∧ visited.settle = .ok (0, next) := by
  unfold Network.tick at htick
  split at htick
  · obtain ⟨⟨begun, visited⟩, hvisit, hrest⟩ := bind_eq_ok.mp htick
    obtain ⟨⟨resumed, last⟩, hsettle, hpair⟩ := bind_eq_ok.mp hrest
    obtain ⟨hsum, rfl⟩ := Prod.mk.inj (Except.ok.inj hpair)
    obtain ⟨rfl, rfl⟩ : begun = 0 ∧ resumed = 0 := by omega
    exact ⟨network, visited, hsound, hvisit, hsettle⟩
  · obtain ⟨⟨carried, start⟩, hcarry, hbegin⟩ := bind_eq_ok.mp htick
    obtain ⟨⟨begun, visited⟩, hvisit, hrest⟩ := bind_eq_ok.mp hbegin
    have hstart := (hsound.resumeUpTo network.fabric.ready.length).of_ok hcarry
    by_cases hnone : carried + begun = 0
    · simp only [if_pos hnone] at hrest
      obtain ⟨rfl, rfl⟩ : carried = 0 ∧ begun = 0 := by omega
      exact ⟨start, visited, hstart, hvisit, settle_of_settleFirst hrest⟩
    · simp only [if_neg hnone] at hrest
      -- a tick that ends here has settled something
      exact absurd (Prod.mk.inj (Except.ok.inj hrest)).1 hnone

/-- A tick in which nothing settles leaves a sound network at a standstill. -/
theorem Sound.deadlocked_of_tick (hsound : network.Sound users)
    (htick : network.tick = .ok (0, next)) : next.Deadlocked := by
  have hnext := hsound.tick.of_ok htick
  obtain ⟨start, visited, hstart, hvisit, hsettle⟩ := hsound.parts_of_tick_zero htick
  have hvisitedSound := (hstart.visitAll (List.finRange m)).of_ok hvisit
  obtain ⟨hreaders, hready, hlater⟩ := hvisitedSound.settle_zero hsettle
  obtain ⟨-, hvisited⟩ := hstart.visitAll_zero hvisit hreaders
  have hunderway : ∀ task, next.UnderWay task := fun task =>
    hlater task (hvisited task (Or.inl (List.mem_finRange task)))
  refine ⟨hready, hunderway, fun task => hnext.fabric.exists_waiting ?_ (by simp [hready])⟩
  rw [← hnext.inFlight task, (hunderway task).isPending]

end Network

end NodeGrid

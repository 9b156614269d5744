import NodeGrid.Proofs.Network.Soundness
import Mathlib.Data.List.FinRange

/-!
# The parts of a tick

A tick resumes some tasks, visits every member once, and again resumes some tasks
(`parts_of_tick`); in lockstep none is resumed before the visits, and all that are ready
after them.  However many tasks are resumed, one after the other, the network `Drains`.

A visit either begins a step or finds the last one still under way (`visit_cases`), and
leaves all other members alone.  So a member comes to its visit as it was when the visits
began, and what its visit leaves of it is there when they end (`exists_attends`).
-/

namespace NodeGrid.Network

variable {m n : ℕ} {network next last : Network m n} {users : Fin n → Finset (Fin m)}
  {task other : Fin m} {tasks : List (Fin m)} {settled : ℕ}

/-! ## Resuming -/

/-- Tasks are resumed one after the other, always the first of the ready ones. -/
inductive Drains : Network m n → Network m n → Prop where
  | refl (network : Network m n) : Drains network network
  | resume {network next last : Network m n} {settled : ℕ}
      (hresume : network.resumeNext = .ok (some (settled, next))) (hrest : Drains next last) :
      Drains network last

theorem drains_of_settle (hsettle : network.settle = .ok (settled, next)) :
    network.Drains next := by
  fun_induction Network.settle network generalizing settled with
  | case1 network broken hresume => cases hsettle
  | case2 network hresume =>
      cases hsettle
      exact .refl _
  | case3 network first between hresume hlt ih =>
      obtain ⟨⟨others, last⟩, hrest, hpair⟩ := bind_eq_ok.mp hsettle
      cases hpair
      exact .resume hresume (ih hrest)

theorem drains_of_settleFirst (hsettle : network.settleFirst = .ok (settled, next)) :
    network.Drains next := by
  fun_induction Network.settleFirst network generalizing settled with
  | case1 network broken hresume => cases hsettle
  | case2 network hresume =>
      cases hsettle
      exact .refl _
  | case3 network between hresume hlt ih => exact .resume hresume (ih hsettle)
  | case4 network first between hresume hlt hfirst =>
      cases hsettle
      exact .resume hresume (.refl _)

theorem drains_of_resumeUpTo {count : ℕ}
    (hresumed : network.resumeUpTo count = .ok (settled, next)) : network.Drains next := by
  induction count generalizing network settled with
  | zero =>
      cases hresumed
      exact .refl _
  | succ count ih =>
      obtain ⟨resumed, hresume, hrest⟩ := bind_eq_ok.mp hresumed
      cases resumed with
      | none =>
          cases hrest
          exact .refl _
      | some outcome =>
          obtain ⟨first, between⟩ := outcome
          obtain ⟨⟨others, last⟩, hothers, hpair⟩ := bind_eq_ok.mp hrest
          cases hpair
          exact .resume hresume (ih hothers)

theorem Drains.sound (hdrains : network.Drains next) (hsound : network.Sound users) :
    next.Sound users := by
  induction hdrains with
  | refl network => exact hsound
  | resume hresume hrest ih => exact ih (hsound.resumeNext.of_ok hresume _ _ rfl)

/-- What a node keeps whenever it goes on, it keeps while the network drains. -/
theorem Drains.keeps_node {kept : Node n → Prop} {node : Node n}
    (hkept : ∀ {node after : Node n} {fabric rest : Fabric (Fin m) n} {progress : Progress},
      kept node → node.resume task fabric = .ok (progress, after, rest) → kept after)
    (hdrains : network.Drains next) (hnode : network.member task = .node node)
    (hstart : kept node) : ∃ after, next.member task = .node after ∧ kept after := by
  induction hdrains generalizing node with
  | refl network => exact ⟨node, hnode, hstart⟩
  | resume hresume hrest ih =>
      obtain ⟨other, ready, progress, member, fabric, -, hmember, -, rfl⟩ :=
        resumeNext_eq_some_iff.mp hresume
      by_cases hother : task = other
      · subst hother
        rw [hnode] at hmember
        obtain ⟨⟨progress, resumed, rest⟩, hresumed, hpair⟩ := bind_eq_ok.mp hmember
        cases hpair
        exact ih member_put_self (hkept hstart hresumed)
      · exact ih ((member_put_of_ne hother).trans hnode) hstart

/-! ## Visiting -/

/-- A visit begins a step, after the last one has been given up if it was under way; or it
only counts a cycle. -/
theorem visit_cases (hvisit : network.visit task = .ok (settled, next)) :
    (∃ released, network.release task = .ok (some released) ∧
      released.begin task = .ok (settled, next)) ∨
    network.release task = .ok none ∧ network.isPending task = true ∧
      next = network.put task (network.member task).stall true network.fabric := by
  unfold visit at hvisit
  unfold release
  by_cases hpending : network.isPending task = true
  · rw [if_pos hpending] at hvisit ⊢
    obtain ⟨withdrawn, hwithdraw, hvisit⟩ := bind_eq_ok.mp hvisit
    rw [hwithdraw, ok_bind]
    cases withdrawn with
    | some outcome =>
        obtain ⟨member, fabric⟩ := outcome
        exact Or.inl ⟨_, rfl, hvisit⟩
    | none =>
        -- the other end is committed already
        cases hvisit
        exact Or.inr ⟨rfl, hpending, rfl⟩
  · rw [if_neg hpending] at hvisit ⊢
    exact Or.inl ⟨network, rfl, hvisit⟩

/-- What is put in place of a member leaves the others alone. -/
theorem begin_of_ne (hbegin : network.begin task = .ok (settled, next)) (hne : other ≠ task) :
    next.member other = network.member other ∧ next.isPending other = network.isPending other := by
  obtain ⟨⟨progress, member, fabric⟩, -, hnext⟩ := bind_eq_ok.mp hbegin
  cases progress <;> cases hnext <;> exact ⟨member_put_of_ne hne, isPending_put_of_ne hne⟩

theorem release_of_ne (hrelease : network.release task = .ok (some next)) (hne : other ≠ task) :
    next.member other = network.member other ∧ next.isPending other = network.isPending other := by
  unfold release at hrelease
  split at hrelease
  · obtain ⟨withdrawn, -, hreleased⟩ := bind_eq_ok.mp hrelease
    cases withdrawn with
    | none => cases hreleased
    | some outcome =>
        cases hreleased
        exact ⟨member_put_of_ne hne, isPending_put_of_ne hne⟩
  · cases hrelease
    exact ⟨rfl, rfl⟩

theorem visit_of_ne (hvisit : network.visit task = .ok (settled, next)) (hne : other ≠ task) :
    next.member other = network.member other ∧ next.isPending other = network.isPending other := by
  rcases visit_cases hvisit with ⟨released, hrelease, hbegin⟩ | ⟨-, -, rfl⟩
  · obtain ⟨hmember, hpending⟩ := release_of_ne hrelease hne
    obtain ⟨hnext, hnextPending⟩ := begin_of_ne hbegin hne
    exact ⟨hnext.trans hmember, hnextPending.trans hpending⟩
  · exact ⟨member_put_of_ne hne, isPending_put_of_ne hne⟩

theorem visitAll_of_notMem (hvisit : network.visitAll tasks = .ok (settled, next))
    (htask : task ∉ tasks) :
    next.member task = network.member task ∧ next.isPending task = network.isPending task := by
  induction tasks generalizing network settled with
  | nil =>
      cases hvisit
      exact ⟨rfl, rfl⟩
  | cons first rest ih =>
      obtain ⟨⟨begun, between⟩, hfirst, hrest⟩ := bind_eq_ok.mp hvisit
      obtain ⟨⟨others, last⟩, hothers, hpair⟩ := bind_eq_ok.mp hrest
      cases hpair
      rw [List.mem_cons, not_or] at htask
      obtain ⟨hmember, hpending⟩ := visit_of_ne hfirst htask.1
      obtain ⟨hlast, hlastPending⟩ := ih hothers htask.2
      exact ⟨hlast.trans hmember, hlastPending.trans hpending⟩

/-- Visits can be cut in two. -/
theorem visitAll_append {first second : List (Fin m)}
    (hvisit : network.visitAll (first ++ second) = .ok (settled, last)) :
    ∃ begun between others, network.visitAll first = .ok (begun, between) ∧
      between.visitAll second = .ok (others, last) := by
  induction first generalizing network settled with
  | nil => exact ⟨0, network, settled, rfl, hvisit⟩
  | cons task rest ih =>
      obtain ⟨⟨begun, between⟩, hfirst, hrest⟩ := bind_eq_ok.mp hvisit
      obtain ⟨⟨others, final⟩, hothers, hpair⟩ := bind_eq_ok.mp hrest
      cases hpair
      obtain ⟨more, middle, later, hmore, hlater⟩ := ih hothers
      refine ⟨begun + more, middle, later, ?_, hlater⟩
      rw [visitAll, hfirst, ok_bind]
      simp only [hmore, ok_bind]
      rfl

/-- The visit of a member among those of all members. -/
structure Attends (network : Network m n) (task : Fin m) (before : Network m n) (settled : ℕ)
    (after last : Network m n) : Prop where
  visits : ∃ earlier later begun others, List.finRange m = earlier ++ task :: later ∧
    network.visitAll earlier = .ok (begun, before) ∧ after.visitAll later = .ok (others, last)
  visit_eq : before.visit task = .ok (settled, after)
  member_before : before.member task = network.member task
  isPending_before : before.isPending task = network.isPending task
  member_last : last.member task = after.member task

theorem exists_attends (hvisit : network.visitAll (List.finRange m) = .ok (settled, last))
    (task : Fin m) : ∃ before begun after, network.Attends task before begun after last := by
  obtain ⟨earlier, later, hsplit⟩ := List.append_of_mem (List.mem_finRange task)
  have hnodup := List.nodup_finRange m
  rw [hsplit] at hvisit hnodup
  obtain ⟨hearlier, hlater⟩ : task ∉ earlier ∧ task ∉ later := by
    rw [List.nodup_middle, List.nodup_cons, List.mem_append, not_or] at hnodup
    exact hnodup.1
  obtain ⟨first, before, rest, hbefore, hrest⟩ := visitAll_append hvisit
  obtain ⟨⟨begun, after⟩, hafter, hothers⟩ := bind_eq_ok.mp hrest
  obtain ⟨⟨others, final⟩, hlast, hpair⟩ := bind_eq_ok.mp hothers
  cases hpair
  obtain ⟨hmember, hpending⟩ := visitAll_of_notMem hbefore hearlier
  exact ⟨before, begun, after, ⟨earlier, later, first, others, hsplit, hbefore, hlast⟩, hafter,
    hmember, hpending, (visitAll_of_notMem hlast hlater).1⟩

theorem Attends.sound {before after : Network m n}
    (hattends : network.Attends task before settled after last) (hsound : network.Sound users) :
    before.Sound users ∧ after.Sound users := by
  obtain ⟨earlier, later, begun, others, -, hbefore, -⟩ := hattends.visits
  have hsoundBefore := (hsound.visitAll earlier).of_ok hbefore
  exact ⟨hsoundBefore, (hsoundBefore.visit task).of_ok hattends.visit_eq⟩

/-! ## Ticks -/

/-- What a tick is made of. -/
theorem parts_of_tick (htick : network.tick = .ok (settled, last)) :
    ∃ carried begun visited, network.Drains carried ∧
      carried.visitAll (List.finRange m) = .ok (begun, visited) ∧ visited.Drains last := by
  unfold tick at htick
  cases hdiscipline : network.discipline with
  | lockstep =>
      rw [hdiscipline] at htick
      obtain ⟨⟨begun, visited⟩, hvisit, hrest⟩ := bind_eq_ok.mp htick
      obtain ⟨⟨resumed, final⟩, hsettle, hpair⟩ := bind_eq_ok.mp hrest
      cases hpair
      exact ⟨network, begun, visited, .refl network, hvisit, drains_of_settle hsettle⟩
  | firstSettled =>
      rw [hdiscipline] at htick
      obtain ⟨⟨resumed, carried⟩, hcarry, hrest⟩ := bind_eq_ok.mp htick
      obtain ⟨⟨begun, visited⟩, hvisit, hrest⟩ := bind_eq_ok.mp hrest
      refine ⟨carried, begun, visited, drains_of_resumeUpTo hcarry, hvisit, ?_⟩
      -- what follows the visits drains the network, or there is nothing more to do
      by_cases hnone : resumed + begun = 0
      · simp only [if_pos hnone] at hrest
        exact drains_of_settleFirst hrest
      · simp only [if_neg hnone] at hrest
        cases hrest
        exact .refl _

/-- In lockstep, a tick visits all members and then settles. -/
theorem parts_of_lockstep (hdiscipline : network.discipline = .lockstep)
    (htick : network.tick = .ok (settled, last)) :
    ∃ begun visited resumed, network.visitAll (List.finRange m) = .ok (begun, visited) ∧
      visited.settle = .ok (resumed, last) := by
  rw [tick, hdiscipline] at htick
  obtain ⟨⟨begun, visited⟩, hvisit, hrest⟩ := bind_eq_ok.mp htick
  obtain ⟨⟨resumed, final⟩, hsettle, hpair⟩ := bind_eq_ok.mp hrest
  cases hpair
  exact ⟨begun, visited, resumed, hvisit, hsettle⟩

end NodeGrid.Network

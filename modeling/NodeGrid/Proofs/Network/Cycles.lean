import NodeGrid.Proofs.Network.Visits
import NodeGrid.Proofs.Node.Cycles

/-!
# The cycles of a node in one tick

A tick visits every node once, which asks it for one cycle, and nothing else does
(`Sound.cycles_of_tick`).  In lockstep a node begins at most one step in a tick, and one
that has begun before a tick begins none; hence it completes at most one instruction
(`Sound.executed_of_lockstep`).
-/

namespace NodeGrid.Network

variable {m n : ℕ} {network next last : Network m n} {users : Fin n → Finset (Fin m)} {task : Fin m}
  {node after : Node n} {settled : ℕ}

/-- Resuming tasks neither asks a node for cycles nor begins steps of it. -/
theorem Drains.cycles (hdrains : network.Drains next) (hnode : network.member task = .node node) :
    ∃ after, next.member task = .node after ∧ after.requested = node.requested ∧
      after.begun = node.begun := by
  refine hdrains.keeps_node (fun hsame hresume => ?_) hnode ⟨rfl, rfl⟩
  obtain ⟨hrequested, hbegun⟩ := Node.cycles_of_resume hresume
  exact ⟨hrequested.trans hsame.1, hbegun.trans hsame.2⟩

/-- A node that is free to begin a step has given up at most an abandoned operation. -/
theorem Sound.node_of_release (hsound : network.Sound users) (hnode : network.member task = .node node)
    (hrelease : network.release task = .ok (some next)) :
    next.member task = .node { node with abandoned := none } ∧ node.pending = none := by
  obtain ⟨hreleased, hidle⟩ := (hsound.release task).of_ok hrelease
  -- whether something was withdrawn or not, nothing else of the node has changed
  have hmember : ∃ abandoned, next.member task = .node { node with abandoned } := by
    unfold Network.release at hrelease
    split at hrelease
    · rw [hnode] at hrelease
      obtain ⟨withdrawn, hwithdraw, hreleased⟩ := bind_eq_ok.mp hrelease
      obtain ⟨outcome, hnodeWithdraw, hmap⟩ := bind_eq_ok.mp hwithdraw
      cases hmap
      cases outcome with
      | none => cases hreleased
      | some pair =>
          obtain ⟨released, fabric⟩ := pair
          cases hreleased
          obtain ⟨-, -, rfl⟩ := (Node.withdrawn_of_withdraw hnodeWithdraw).after_eq
          exact ⟨none, member_put_self⟩
    · cases hrelease
      exact ⟨node.abandoned, hnode⟩
  obtain ⟨abandoned, hmember⟩ := hmember
  rw [engaged, hmember] at hidle
  -- being idle, the node has neither an operation nor a remainder of one
  have hsame : (Participant.node { node with abandoned }).Sound (task ∈ users ·) :=
    hmember ▸ hreleased.members task
  obtain ⟨hpending, hnone⟩ := (Node.Sound.engagement_eq_none_iff hsame).mp hidle
  obtain rfl : abandoned = none := hnone
  exact ⟨hmember, hpending⟩

/-- A visit asks a node for one cycle, and begins at most one step if none is under way. -/
theorem Sound.cycles_of_visit (hsound : network.Sound users)
    (hnode : network.member task = .node node) (hvisit : network.visit task = .ok (settled, next)) :
    ∃ after, next.member task = .node after ∧ after.requested = node.requested + 1 ∧
      after.begun ≤ node.executed + 1 := by
  rcases visit_cases hvisit with ⟨released, hrelease, hbegin⟩ | ⟨-, -, rfl⟩
  · obtain ⟨hmember, hpending⟩ := hsound.node_of_release hnode hrelease
    obtain ⟨⟨progress, member, fabric⟩, hstep, hnext⟩ := bind_eq_ok.mp hbegin
    rw [hmember] at hstep
    obtain ⟨⟨_, after, rest⟩, hafter, hpair⟩ := bind_eq_ok.mp hstep
    cases hpair
    have hidle : Node.pending { node with abandoned := none } = none := hpending
    obtain ⟨hrequested, hbegun⟩ := Node.cycles_of_step hidle hafter
    refine ⟨after, ?_, hrequested, hbegun⟩
    cases progress <;> cases hnext <;> exact member_put_self
  · refine ⟨node.stall, ?_, rfl, node.begun_le_succ_executed⟩
    rw [hnode]
    exact member_put_self

/-- A tick asks every node for one cycle. -/
theorem Sound.cycles_of_tick (hsound : network.Sound users)
    (hnode : network.member task = .node node) (htick : network.tick = .ok (settled, last)) :
    ∃ after, last.member task = .node after ∧ after.requested = node.requested + 1 := by
  obtain ⟨carried, begun, visited, hcarried, hvisit, hdrained⟩ := parts_of_tick htick
  obtain ⟨start, hstart, hrequested, -⟩ := hcarried.cycles hnode
  obtain ⟨before, first, between, hattends⟩ := exists_attends hvisit task
  obtain ⟨hbefore, -⟩ := hattends.sound (hcarried.sound hsound)
  obtain ⟨reached, hreached, hcount, -⟩ :=
    hbefore.cycles_of_visit (hattends.member_before.trans hstart) hattends.visit_eq
  obtain ⟨after, hafter, hsame, -⟩ := hdrained.cycles (hattends.member_last.trans hreached)
  exact ⟨after, hafter, by omega⟩

/-- In lockstep, a node completes at most one instruction in a tick. -/
theorem Sound.executed_of_lockstep (hsound : network.Sound users)
    (hdiscipline : network.discipline = .lockstep) (hnode : network.member task = .node node)
    (htick : network.tick = .ok (settled, last)) :
    ∃ after, last.member task = .node after ∧ after.executed ≤ node.executed + 1 := by
  obtain ⟨begun, visited, resumed, hvisit, hsettle⟩ := parts_of_lockstep hdiscipline htick
  obtain ⟨before, first, between, hattends⟩ := exists_attends hvisit task
  obtain ⟨hbefore, -⟩ := hattends.sound hsound
  obtain ⟨reached, hreached, -, hle⟩ :=
    hbefore.cycles_of_visit (hattends.member_before.trans hnode) hattends.visit_eq
  obtain ⟨after, hafter, -, hsame⟩ :=
    (drains_of_settle hsettle).cycles (hattends.member_last.trans hreached)
  have hexecuted : after.executed ≤ after.begun := Nat.le_add_right _ _
  exact ⟨after, hafter, hexecuted.trans (hsame.le.trans hle)⟩

end NodeGrid.Network

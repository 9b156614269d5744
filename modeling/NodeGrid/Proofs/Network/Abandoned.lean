import NodeGrid.Proofs.Fabric.Relief
import NodeGrid.Proofs.Network.Order
import NodeGrid.Proofs.Network.Standstill
import NodeGrid.Proofs.Network.Visits

/-!
# Abandoned operations

An abandoned operation stays in its channel until it is withdrawn or has taken place.  The
visit of its member withdraws it, or else the operation is due (`letsGo_of_visit`); it
then stays due until it ends, whatever the other members do (`LetsGo.path`).  In lockstep
a tick goes on until no task is ready, and then none is due.  So at the end of a tick no
member has an abandoned operation (`Sound.abandoned_of_lockstep`).
-/

namespace NodeGrid

variable {m n : ℕ}

/-- What cannot be taken back is due. -/
theorem Fabric.Sound.isDue_of_refuses {τ : Type} [Fintype τ] [DecidableEq τ] {fabric : Fabric τ n}
    {users : Fin n → Finset τ} {engaged : τ → Option (Engagement n)} {task : τ}
    {engagement : Option (Engagement n)} (hsound : fabric.Sound users engaged)
    (hengaged : engaged task = engagement) (hrefuses : fabric.Refuses task engagement) :
    fabric.IsDue engaged task := by
  cases hrefuses with
  | send hcancel => exact hsound.isDue_of_cancelSend hengaged hcancel
  | receive hcancel => exact hsound.isDue_of_cancelReceive hengaged hcancel

namespace Network

variable {network next last : Network m n} {users : Fin n → Finset (Fin m)}
  {loads : Fin m → Prop} {first second : Stage m} {log : Log (Fin m) n} {task : Fin m}
  {settled : ℕ}

/-- The member has abandoned no operation, or the operation is due. -/
def LetsGo (network : Network m n) (task : Fin m) : Prop :=
  (network.member task).abandoned = none ∨ network.fabric.IsDue network.engaged task

/-! ## Due operations end -/

/-- What happens to another member and to the fabric lets the task go if it leaves it due. -/
theorem LetsGo.put {other : Fin m} {member : Participant n} {inFlight : Bool}
    {fabric : Fabric (Fin m) n} (hletsGo : network.LetsGo task) (hne : task ≠ other)
    (hdue : network.fabric.IsDue network.engaged task →
      fabric.IsDue (Function.update network.engaged other member.engagement) task) :
    (network.put other member inFlight fabric).LetsGo task := by
  refine hletsGo.imp (fun habandoned => ?_) fun hold => ?_
  · rwa [member_put_of_ne hne]
  · rw [engaged_put]
    exact hdue hold

theorem letsGo_put_self {member : Participant n} {inFlight : Bool} {fabric : Fabric (Fin m) n}
    (habandoned : member.abandoned = none) : (network.put task member inFlight fabric).LetsGo task :=
  Or.inl (by rwa [member_put_self])

/-- A task that is resumed has ended what it had abandoned. -/
theorem Sound.abandoned_of_resume {ready : List (Fin m)} {progress : Progress}
    {member : Participant n} {fabric : Fabric (Fin m) n} (hsound : network.Sound users)
    (hready : network.fabric.ready = task :: ready)
    (hresume : (network.member task).resume task (network.fabric.withReady ready) =
      .ok (progress, member, fabric)) : member.abandoned = none := by
  obtain ⟨hmember, hserved⟩ := ((hsound.members task).resume hsound.fabric hready rfl).of_ok hresume
  cases progress with
  | settled => exact hmember.abandoned_of_idle (by simpa using hserved.pending_iff)
  | pending =>
      -- only a read of the present program goes on to wait again
      obtain ⟨hdebt, habandoned⟩ := Participant.debt_of_resume hresume
      exact habandoned.trans ((hsound.members task).receiving_of_debt hdebt).1

theorem LetsGo.step (hletsGo : network.LetsGo task) (hsound : network.Sound everyone)
    (hkeep : ¬ loads task) (hstep : Step loads first network log second next) :
    next.LetsGo task := by
  have hreaches : ∀ other k, (network.member other).Reaches k → other ∈ everyone k :=
    fun other _ _ => Finset.mem_univ other
  cases hstep with
  | @begin _ other rest progress member fabric hidle hmember =>
      -- the member itself starts with nothing left over; a stranger may have become due to it
      have hrest := hsound.idle_of_isPending hidle
      by_cases hne : task = other
      · subst hne
        refine letsGo_put_self ?_
        rw [Participant.abandoned_of_step hmember, (hsound.members task).abandoned_of_idle hrest]
      · exact hletsGo.put hne fun hdue => hdue.begins hsound.fabric (hreaches other) hrest hne
          ((hsound.members other).begins_of_step hrest hmember)
  | @withdraw _ other rest member fabric hpending hmember =>
      obtain ⟨hafter, hengagement, -⟩ :=
        ((hsound.members other).withdraw hsound.fabric).of_ok hmember member fabric rfl
      by_cases hne : task = other
      · subst hne
        exact letsGo_put_self (hafter.abandoned_of_idle hengagement)
      · refine hletsGo.put hne fun hdue => ?_
        rw [hengagement]
        exact hdue.withdraws hsound.fabric rfl hne
          ((hsound.members other).withdraws_of_withdraw hmember)
  | @stall _ other rest hpending =>
      rw [LetsGo, engaged_stall]
      refine hletsGo.imp_left fun habandoned => ?_
      by_cases hne : task = other
      · subst hne
        rwa [member_put_self, Participant.abandoned_stall]
      · rwa [member_put_of_ne hne]
  | @resume _ other ready progress member fabric _ _ hstages hready hmember =>
      by_cases hne : task = other
      · subst hne
        exact letsGo_put_self (hsound.abandoned_of_resume hready hmember)
      · have hengaged : (network.member other).engagement ≠ none :=
          Option.isSome_iff_ne_none.mp (hsound.fabric.engaged_of_ready other (by simp [hready]))
        exact hletsGo.put hne fun hdue => hdue.resumes hsound.fabric (hreaches other) hready rfl hne
          ((hsound.members other).resumes_of_resume hengaged hmember)
  | turn hturn => exact hletsGo
  | @load _ other source hload =>
      -- only a load leaves something behind, and it is not a load of this member
      have hne : task ≠ other := fun heq => hkeep (heq ▸ hload)
      rw [LetsGo, member_load_of_ne hne, engaged_load]
      exact hletsGo

/-- Whoever lets its operation go still does after everything else that happens. -/
theorem LetsGo.path (hletsGo : network.LetsGo task) (hsound : network.Sound everyone)
    (hkeep : ¬ loads task) (hpath : Path loads first network log second next) :
    next.LetsGo task := by
  induction hpath with
  | nil => exact hletsGo
  | cons hstep hrest ih =>
      exact ih (hletsGo.step hsound hkeep hstep)
        (hstep.sound hsound fun other _ _ _ => Finset.mem_univ other)

/-! ## Visits and ticks -/

/-- The visit of a member withdraws what the member has abandoned, or finds it due. -/
theorem Sound.letsGo_of_visit (hsound : network.Sound users)
    (hvisit : network.visit task = .ok (settled, next)) : next.LetsGo task := by
  rcases visit_cases hvisit with ⟨released, hrelease, hbegin⟩ | ⟨hrefused, hpending, rfl⟩
  · obtain ⟨hreleased, hidle⟩ := (hsound.release task).of_ok hrelease
    obtain ⟨⟨progress, member, fabric⟩, hstep, hnext⟩ := bind_eq_ok.mp hbegin
    have habandoned : member.abandoned = none := by
      rw [Participant.abandoned_of_step hstep, (hreleased.members task).abandoned_of_idle hidle]
    cases progress <;> cases hnext <;> exact letsGo_put_self habandoned
  · -- the withdrawal was refused, so somebody has already promised the other end
    rw [LetsGo, member_put_self, Participant.abandoned_stall, engaged_stall]
    by_cases habandoned : (network.member task).abandoned = none
    · exact Or.inl habandoned
    · rw [Network.release, if_pos hpending] at hrefused
      obtain ⟨withdrawn, hwithdraw, hnone⟩ := bind_eq_ok.mp hrefused
      obtain rfl : withdrawn = none := by
        cases withdrawn with
        | none => rfl
        | some outcome => cases hnone
      exact Or.inr (hsound.fabric.isDue_of_refuses rfl
        ((hsound.members task).refuses_of_withdraw habandoned hwithdraw))

/-- In lockstep, no member has an abandoned operation at the end of a tick. -/
theorem Sound.abandoned_of_lockstep (hsound : network.Sound everyone)
    (hdiscipline : network.discipline = .lockstep) (htick : network.tick = .ok (settled, last))
    (task : Fin m) : (last.member task).abandoned = none := by
  obtain ⟨begun, visited, resumed, hvisit, hsettle⟩ := parts_of_lockstep hdiscipline htick
  obtain ⟨before, count, after, hattends⟩ := exists_attends hvisit task
  obtain ⟨hbefore, hafter⟩ := hattends.sound hsound
  obtain ⟨earlier, later, _, _, -, -, hlater⟩ := hattends.visits
  obtain ⟨hpath, hready⟩ : Path (fun _ => False) .resuming visited _ .resuming last ∧ _ :=
    path_of_settle hsettle
  have hrest : Path (fun _ => False) (.visiting later) after _ .resuming last :=
    (path_of_visitAll hlater).trans (.turn .visited hpath)
  have hletsGo := (hbefore.letsGo_of_visit hattends.visit_eq).path hafter not_false hrest
  exact hletsGo.resolve_right (Fabric.not_isDue_of_ready hready)

end Network

end NodeGrid

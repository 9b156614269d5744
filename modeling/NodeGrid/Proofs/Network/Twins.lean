import NodeGrid.Proofs.Network.Trace
import NodeGrid.Proofs.Node.Twins

/-!
# Networks that keep step

Two networks mirror each other if they share everything but the programs of their
nodes, and nodes with the same task are twins.  Whatever one of them does, the other
does with the same tasks, on the same channels and with the same steps settled
(`Mirrors.begin`, `Mirrors.visit`, `Mirrors.resumeNext`).  So each loop of the scheduler
takes the same turns in both, and a tick leaves networks that mirror each other, or the
same fault (`Mirrors.tick`).  Nothing is asked of the networks, and of their members only
that a step is begun when the last one is over.
-/

namespace NodeGrid

variable {n : ℕ}

/-! ## Participants -/

/-- Nodes that are twins, or the same source or sink. -/
inductive Participant.Mirrors (inFlight : Bool) : Participant n → Participant n → Prop where
  | node {processor other : Node n} (hmirrors : processor.Mirrors inFlight other) :
      Mirrors inFlight (.node processor) (.node other)
  | source (feed : Source n) : Mirrors inFlight (.source feed) (.source feed)
  | sink (store : Sink n) : Mirrors inFlight (.sink store) (.sink store)

namespace Participant.Mirrors

variable {τ : Type} {task : τ} {fabric : Fabric τ n} {participant other : Participant n}
  {inFlight : Bool}

theorem source?_eq (hmirrors : participant.Mirrors inFlight other) :
    other.source? = participant.source? := by
  cases hmirrors <;> rfl

theorem sink?_eq (hmirrors : participant.Mirrors inFlight other) :
    other.sink? = participant.sink? := by
  cases hmirrors <;> rfl

theorem rel_node? (hmirrors : participant.Mirrors inFlight other) :
    Option.Rel Node.Agrees participant.node? other.node? := by
  cases hmirrors with
  | node hmirrors => exact .some hmirrors.twins.toAgrees
  | source feed => exact .none
  | sink store => exact .none

theorem step (hmirrors : participant.Mirrors false other) (task : τ) (fabric : Fabric τ n) :
    SameEnd (StepsAlike Mirrors) (participant.step task fabric) (other.step task fabric) := by
  cases hmirrors with
  | node hmirrors =>
      refine (hmirrors.step task fabric).bind fun _ _ hsteps => ?_
      cases hsteps with
      | intro hrelated => exact .ok (.intro (.node hrelated))
  | source feed => exact .ok (.intro (.source _))
  | sink store => exact .bind_same fun _ => .ok (.intro (.sink _))

theorem resume (hmirrors : participant.Mirrors inFlight other) (task : τ) (fabric : Fabric τ n) :
    SameEnd (StepsAlike fun isPending => Mirrors (isPending && inFlight))
      (participant.resume task fabric) (other.resume task fabric) := by
  cases hmirrors with
  | node hmirrors =>
      refine (hmirrors.resume task fabric).bind fun _ _ hsteps => ?_
      cases hsteps with
      | intro hrelated => exact .ok (.intro (.node hrelated))
  | source feed => exact .ok (.intro (.source _))
  | sink store => exact .bind_same fun _ => .ok (.intro (.sink _))

theorem withdraw [DecidableEq τ] (hmirrors : participant.Mirrors inFlight other) (task : τ)
    (fabric : Fabric τ n) :
    SameEnd (Option.Rel fun first second => first.2 = second.2 ∧ first.1.Mirrors false second.1)
      (participant.withdraw task fabric) (other.withdraw task fabric) := by
  cases hmirrors with
  | node hmirrors =>
      refine (hmirrors.withdraw task fabric).bind fun _ _ hwithdrawn => ?_
      cases hwithdrawn with
      | none => exact .ok .none
      | some hpair => exact .ok (.some ⟨hpair.1, .node hpair.2⟩)
  | source feed => exact .ok .none
  | sink store => exact .ok .none

theorem stall (hmirrors : participant.Mirrors inFlight other) :
    participant.stall.Mirrors inFlight other.stall := by
  cases hmirrors with
  | node hmirrors => exact .node hmirrors.stall
  | source feed => exact .source feed
  | sink store => exact .sink store

theorem load (hmirrors : participant.Mirrors inFlight other) {text late : String}
    (hreplaces : Node.Replaces text late) :
    (participant.load text).Mirrors inFlight (other.load late) := by
  cases hmirrors with
  | node hmirrors => exact .node (hmirrors.load hreplaces)
  | source feed => exact .source feed
  | sink store => exact .sink store

end Participant.Mirrors

/-! ## Networks -/

namespace Network

variable {m : ℕ}

/-- The networks differ only in the programs of nodes that are twins. -/
structure Mirrors (network other : Network m n) : Prop where
  discipline_eq : other.discipline = network.discipline
  inFlight_eq : other.inFlight = network.inFlight
  fabric_eq : other.fabric = network.fabric
  members : ∀ task, (network.member task).Mirrors (network.isPending task) (other.member task)

/-- The same number of steps has settled, and the networks mirror each other. -/
inductive SettlesAlike : ℕ × Network m n → ℕ × Network m n → Prop where
  | intro {settled : ℕ} {network other : Network m n} (hmirrors : network.Mirrors other) :
      SettlesAlike (settled, network) (settled, other)

variable {network other : Network m n} {task : Fin m}

theorem Mirrors.isPending_eq (hmirrors : network.Mirrors other) (task : Fin m) :
    other.isPending task = network.isPending task := by
  rw [isPending, isPending, hmirrors.inFlight_eq]

theorem Mirrors.put (hmirrors : network.Mirrors other) {member late : Participant n}
    {inFlight : Bool} (hmember : member.Mirrors inFlight late) (fabric : Fabric (Fin m) n) :
    (network.put task member inFlight fabric).Mirrors (other.put task late inFlight fabric) where
  discipline_eq := hmirrors.discipline_eq
  inFlight_eq := by simp only [Network.put, hmirrors.inFlight_eq]
  fabric_eq := rfl
  members each := by
    by_cases htask : each = task
    · subst htask
      rwa [member_put_self, member_put_self, isPending_put_self]
    · rw [member_put_of_ne htask, member_put_of_ne htask, isPending_put_of_ne htask]
      exact hmirrors.members each

theorem Mirrors.load (hmirrors : network.Mirrors other) (task : Fin m) {text late : String}
    (hreplaces : Node.Replaces text late) :
    (network.load task text).Mirrors (other.load task late) where
  discipline_eq := hmirrors.discipline_eq
  inFlight_eq := hmirrors.inFlight_eq
  fabric_eq := hmirrors.fabric_eq
  members each := by
    by_cases htask : each = task
    · subst htask
      rw [member_load_self, member_load_self]
      exact (hmirrors.members each).load hreplaces
    · rw [member_load_of_ne htask, member_load_of_ne htask]
      exact hmirrors.members each

/-! ## Beginning steps -/

theorem Mirrors.begin (hmirrors : network.Mirrors other) (hidle : network.isPending task = false) :
    SameEnd SettlesAlike (network.begin task) (other.begin task) := by
  have hmember := hmirrors.members task
  rw [hidle] at hmember
  unfold Network.begin
  rw [hmirrors.fabric_eq]
  refine (hmember.step task network.fabric).bind fun _ _ hsteps => ?_
  cases hsteps with
  | @intro progress after late fabric hrelated =>
      cases progress with
      | settled => exact .ok (.intro (hmirrors.put hrelated fabric))
      | pending => exact .ok (.intro (hmirrors.put hrelated fabric))

theorem Mirrors.visit (hmirrors : network.Mirrors other) (task : Fin m) :
    SameEnd SettlesAlike (network.visit task) (other.visit task) := by
  unfold Network.visit
  rw [hmirrors.isPending_eq]
  by_cases hpending : network.isPending task = true
  · rw [if_pos hpending, if_pos hpending, hmirrors.fabric_eq]
    refine ((hmirrors.members task).withdraw task network.fabric).bind fun _ _ hwithdrawn => ?_
    cases hwithdrawn with
    | none =>
        -- refused in both, so both stall
        have hstalled := (hmirrors.members task).stall
        rw [hpending] at hstalled
        exact .ok (.intro (hmirrors.put hstalled network.fabric))
    | @some first second hpair =>
        obtain ⟨member, fabric⟩ := first
        obtain ⟨late, rest⟩ := second
        obtain ⟨rfl, hmember⟩ : fabric = rest ∧ member.Mirrors false late := hpair
        exact (hmirrors.put hmember fabric).begin isPending_put_self
  · rw [if_neg hpending, if_neg hpending]
    exact hmirrors.begin (Bool.eq_false_iff.mpr hpending)

theorem Mirrors.visitAll (hmirrors : network.Mirrors other) (tasks : List (Fin m)) :
    SameEnd SettlesAlike (network.visitAll tasks) (other.visitAll tasks) := by
  induction tasks generalizing network other with
  | nil => exact .ok (.intro hmirrors)
  | cons task rest ih =>
      refine (hmirrors.visit task).bind fun _ _ hfirst => ?_
      cases hfirst with
      | intro hbetween =>
          refine (ih hbetween).bind fun _ _ hothers => ?_
          cases hothers with
          | intro hlast => exact .ok (.intro hlast)

/-! ## Resuming tasks -/

theorem Mirrors.resumeNext (hmirrors : network.Mirrors other) :
    SameEnd (Option.Rel SettlesAlike) network.resumeNext other.resumeNext := by
  unfold Network.resumeNext
  rw [hmirrors.fabric_eq]
  cases network.fabric.ready with
  | nil => exact .ok .none
  | cons task ready =>
      simp only
      refine ((hmirrors.members task).resume task _).bind fun _ _ hsteps => ?_
      cases hsteps with
      | @intro progress after late fabric hrelated =>
          cases progress with
          | settled => exact .ok (.some (.intro (hmirrors.put hrelated fabric)))
          | pending =>
              simp only [hmirrors.isPending_eq]
              exact .ok (.some (.intro (hmirrors.put hrelated fabric)))

/-- A loop that may go on for as long as there is a task to resume takes the same turns in
both networks. -/
theorem Mirrors.loop {loop : Network m n → Except Fault (ℕ × Network m n)}
    {turn : ℕ → Network m n → Except Fault (ℕ × Network m n)}
    (hloop : ∀ network, loop network = network.resumeThen turn)
    (hturn : ∀ first {next late : Network m n}, next.Mirrors late →
      SameEnd SettlesAlike (loop next) (loop late) →
        SameEnd SettlesAlike (turn first next) (turn first late))
    (hmirrors : network.Mirrors other) : SameEnd SettlesAlike (loop network) (loop other) := by
  -- the two loops need not be unfolded alike, so the induction is on the work that is left
  induction hworkload : network.workload using Nat.strong_induction_on
    generalizing network other with
  | _ workload ih =>
      rw [hloop network, hloop other]
      rcases hmirrors.resumeNext.exists_of with ⟨resumed, late, hresume, hresumeOther, hrelated⟩ |
        ⟨broken, hresume, hresumeOther⟩
      · cases hrelated with
        | none =>
            rw [resumeThen_of_none hresume, resumeThen_of_none hresumeOther]
            exact .ok (.intro hmirrors)
        | some hsettles =>
            cases hsettles with
            | @intro first next nextOther hnext =>
                have hless := workload_lt_of_resumeNext hresume
                rw [resumeThen_of_some hresume, resumeThen_of_some hresumeOther]
                exact hturn first hnext (ih _ (hworkload ▸ hless) hnext rfl)
      · rw [resumeThen, resumeThen, hresume, hresumeOther]
        exact .error broken

theorem Mirrors.settle (hmirrors : network.Mirrors other) :
    SameEnd SettlesAlike network.settle other.settle := by
  refine loop settle_eq (fun first next late hnext hrest => ?_) hmirrors
  refine hrest.bind fun _ _ hothers => ?_
  cases hothers with
  | intro hlast => exact .ok (.intro hlast)

theorem Mirrors.settleFirst (hmirrors : network.Mirrors other) :
    SameEnd SettlesAlike network.settleFirst other.settleFirst := by
  refine loop settleFirst_eq (fun first next late hnext hrest => ?_) hmirrors
  by_cases hnone : first = 0
  · rw [if_pos hnone, if_pos hnone]
    exact hrest
  · rw [if_neg hnone, if_neg hnone]
    exact .ok (.intro hnext)

theorem Mirrors.resumeUpTo (hmirrors : network.Mirrors other) (count : ℕ) :
    SameEnd SettlesAlike (network.resumeUpTo count) (other.resumeUpTo count) := by
  induction count generalizing network other with
  | zero => exact .ok (.intro hmirrors)
  | succ count ih =>
      refine hmirrors.resumeNext.bind fun _ _ hresumed => ?_
      cases hresumed with
      | none => exact .ok (.intro hmirrors)
      | some hsettles =>
          cases hsettles with
          | intro hnext =>
              refine (ih hnext).bind fun _ _ hothers => ?_
              cases hothers with
              | intro hlast => exact .ok (.intro hlast)

/-! ## Ticks -/

/-- In a tick of either discipline, the same happens in both networks. -/
theorem Mirrors.tick (hmirrors : network.Mirrors other) :
    SameEnd SettlesAlike network.tick other.tick := by
  unfold Network.tick
  rw [hmirrors.discipline_eq]
  cases network.discipline with
  | lockstep =>
      refine (hmirrors.visitAll _).bind fun _ _ hbegun => ?_
      cases hbegun with
      | intro hbetween =>
          refine hbetween.settle.bind fun _ _ hresumed => ?_
          cases hresumed with
          | intro hlast => exact .ok (.intro hlast)
  | firstSettled =>
      simp only [Network.tickFirstSettled, hmirrors.fabric_eq]
      refine (hmirrors.resumeUpTo _).bind fun _ _ hcarried => ?_
      cases hcarried with
      | @intro carried _ _ hcarriedOn =>
          refine (hcarriedOn.visitAll _).bind fun _ _ hbegun => ?_
          cases hbegun with
          | @intro begun _ _ hbetween =>
              -- the counts are the same in both, and so is whether the tick goes on
              by_cases hnone : carried + begun = 0
              · simp only [if_pos hnone]
                exact hbetween.settleFirst
              · simp only [if_neg hnone]
                exact .ok (.intro hbetween)

end Network

end NodeGrid

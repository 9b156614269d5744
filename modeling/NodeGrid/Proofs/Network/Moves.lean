import NodeGrid.Proofs.Network.Trace
import NodeGrid.Proofs.Node.Alone

/-!
# One member of a network

Of everything that happens in a network, a single member takes part in a few kinds of
things, which are its `Moves`.  Its deeds in a trace are those of its moves, one after
the other; so what every move of a member keeps holds for the member and its deeds
after every path of the network on which it gets no new program
(`Path.keeps_member`).
-/

namespace NodeGrid

variable {n : ℕ}

/-- What can happen to a participant, and what it does then. -/
inductive Participant.Moves {τ : Type} [DecidableEq τ] (task : τ) :
    Participant n → List (Deed n) → Participant n → Prop where
  | begins {participant after : Participant n} {allowed : Fin n → Prop} {fabric rest : Fabric τ n}
      {progress : Progress} (hsound : participant.Sound allowed)
      (hidle : participant.engagement = none)
      (hstep : participant.step task fabric = .ok (progress, after, rest)) :
      Moves task participant (.begin :: participant.stepDeeds task fabric) after
  | resumes {participant after : Participant n} {fabric rest : Fabric τ n} {progress : Progress}
      (hengaged : participant.engagement ≠ none)
      (hresume : participant.resume task fabric = .ok (progress, after, rest)) :
      Moves task participant (participant.resumeDeeds task fabric) after
  | withdraws {participant after : Participant n} {fabric rest : Fabric τ n}
      (hwithdraw : participant.withdraw task fabric = .ok (some (after, rest))) :
      Moves task participant participant.withdrawDeeds after
  | stalls {participant : Participant n} (hengaged : participant.engagement ≠ none) :
      Moves task participant [] participant.stall
  | rests {participant : Participant n} : Moves task participant [] participant

/-- What happens to a node as a participant is what happens to the node. -/
theorem Participant.Moves.node {τ : Type} [DecidableEq τ] {task : τ} {node : Node n}
    {after : Participant n} {deeds : List (Deed n)}
    (hmoves : (Participant.node node).Moves task deeds after) :
    ∃ next, after = .node next ∧ node.Moves task deeds next := by
  cases hmoves with
  | begins hsound hidle hstep =>
      obtain ⟨⟨progress, next, rest⟩, hnode, hpair⟩ := bind_eq_ok.mp hstep
      cases hpair
      exact ⟨next, rfl, .begins hsound hidle hnode⟩
  | resumes hengaged hresume =>
      obtain ⟨⟨progress, next, rest⟩, hnode, hpair⟩ := bind_eq_ok.mp hresume
      cases hpair
      exact ⟨next, rfl, .resumes hengaged hnode⟩
  | withdraws hwithdraw =>
      -- a withdrawal does not turn a node into something else
      obtain ⟨_, next, hsame, rfl, hnode⟩ := Participant.exists_node_of_withdraw hwithdraw
      cases hsame
      exact ⟨next, rfl, .withdraws hnode⟩
  | stalls hengaged => exact ⟨node.stall, rfl, .stalls hengaged⟩
  | rests => exact ⟨node, rfl, .rests⟩

namespace Network

variable {m : ℕ} {network next : Network m n} {users : Fin n → Finset (Fin m)}
  {loads : Fin m → Prop} {first second : Stage m} {log : Log (Fin m) n} {task : Fin m}

theorem moves_put {other : Fin m} {member : Participant n} {inFlight : Bool}
    {fabric : Fabric (Fin m) n} {deeds : List (Deed n)}
    (hmoves : (network.member other).Moves other deeds member) :
    (network.member task).Moves task (deedsOf task (logged other deeds))
      ((network.put other member inFlight fabric).member task) := by
  by_cases hother : task = other
  · subst hother
    rwa [deedsOf_logged_self, member_put_self]
  · rw [deedsOf_logged_of_ne hother, member_put_of_ne hother]
    exact .rests

/-- In every step, each member moves or gets a new program. -/
theorem Step.moves (hstep : Step loads first network log second next) (hsound : network.Sound users)
    (task : Fin m) :
    (network.member task).Moves task (deedsOf task log) (next.member task) ∨
      loads task ∧ deedsOf task log = [] ∧
        ∃ source, next.member task = (network.member task).load source := by
  cases hstep with
  | begin hidle hmember =>
      refine Or.inl (moves_put ?_)
      exact .begins (hsound.members _) (hsound.idle_of_isPending hidle) hmember
  | withdraw hpending hmember => exact Or.inl (moves_put (.withdraws hmember))
  | @stall _ other rest hpending =>
      -- only a member that is waiting stalls
      have hengaged : (network.member other).engagement ≠ none := by
        rw [hsound.inFlight other] at hpending
        exact Option.isSome_iff_ne_none.mp hpending
      have hmoves : (network.member other).Moves other [] (network.member other).stall :=
        .stalls hengaged
      exact Or.inl (moves_put hmoves)
  | @resume _ other ready progress member fabric _ _ hstages hready hmember =>
      have hengaged : (network.member other).engagement ≠ none :=
        Option.isSome_iff_ne_none.mp (hsound.fabric.engaged_of_ready other (by simp [hready]))
      rw [resumeTrace, hready]
      exact Or.inl (moves_put (.resumes hengaged hmember))
  | turn hturn => exact Or.inl .rests
  | @load _ other source hload =>
      by_cases hother : task = other
      · subst hother
        exact Or.inr ⟨hload, rfl, source, member_load_self⟩
      · rw [member_load_of_ne hother]
        exact Or.inl .rests

/-- What every move of a member keeps, and every new program that it gets, a path of the
network keeps for that member. -/
theorem Path.keeps_loaded_member {kept : List (Deed n) → Participant n → Prop}
    {deeds : List (Deed n)}
    (hkept : ∀ {deeds more : List (Deed n)} {member after : Participant n},
      kept deeds member → member.Moves task more after → kept (deeds ++ more) after)
    (hloaded : loads task → ∀ {deeds : List (Deed n)} {member : Participant n} (source : String),
      kept deeds member → kept deeds (member.load source))
    (hpath : Path loads first network log second next) (hsound : network.Sound users)
    (hreach : ∀ task, loads task → ∀ k, (network.member task).Reaches k → task ∈ users k)
    (hstart : kept deeds (network.member task)) :
    kept (deeds ++ deedsOf task log) (next.member task) := by
  -- along the path, from the front, so that the deeds come in order
  induction hpath generalizing deeds with
  | nil => simpa using hstart
  | cons hstep hrest ih =>
      rw [deedsOf_append, ← List.append_assoc]
      refine ih (hstep.sound hsound hreach) (fun other hother k hk => hreach other hother k ?_) ?_
      · rwa [← hstep.reaches_eq other]
      · rcases hstep.moves hsound task with hmoves | ⟨hloads, hnone, source, hmember⟩
        · exact hkept hstart hmoves
        · rw [hnone, hmember, List.append_nil]
          exact hloaded hloads source hstart

/-- What every move of a member keeps, a path of the network keeps for that member. -/
theorem Path.keeps_member {kept : List (Deed n) → Participant n → Prop} {deeds : List (Deed n)}
    (hkept : ∀ {deeds more : List (Deed n)} {member after : Participant n},
      kept deeds member → member.Moves task more after → kept (deeds ++ more) after)
    (hpath : Path loads first network log second next) (hsound : network.Sound users)
    (hreach : ∀ task, loads task → ∀ k, (network.member task).Reaches k → task ∈ users k)
    (hload : ¬ loads task) (hstart : kept deeds (network.member task)) :
    kept (deeds ++ deedsOf task log) (next.member task) :=
  hpath.keeps_loaded_member hkept (fun hloads => absurd hloads hload) hsound hreach hstart

end Network

end NodeGrid

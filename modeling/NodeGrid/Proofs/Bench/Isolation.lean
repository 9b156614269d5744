import NodeGrid.Proofs.Bench.Trace
import NodeGrid.Proofs.Network.Ageing
import NodeGrid.Proofs.Network.Moves

/-!
# Replacing a program in the middle of an operation

A node that gets a new program may have an operation of the old one outstanding.  From
then on it does two things, one after the other (`Node.Isolated`): it ends that
operation, with a single deed, and it runs the new program as a node would that has
never had another one (`Node.Runs`).

`isolated_of_load`: this is so in every state that a bench can get into, and whatever
is done with the bench afterwards, until the node gets its next program.
-/

namespace NodeGrid

variable {n : ℕ}

/-- The deed ends the operation.  The operation is withdrawn, or takes place: a value
that was to be sent is put into its channel, a value that was to be received is taken
out of it and dropped. -/
inductive Deed.Ends : Engagement n → Deed n → Prop where
  | withdrawsSend {k : Fin n} {value : Int64} : Ends (.sending k value) (.cancelSend k)
  | withdrawsReceive {k : Fin n} : Ends (.receiving k) (.cancelReceive k)
  | delivers {k : Fin n} {value : Int64} : Ends (.sending k value) (.finishSend k value)
  | drops {k : Fin n} {value : Int64} : Ends (.receiving k) (.finishReceive k value)

namespace Node

/-- What a node has done since it got a new program, if it was engaged as given then
and a node that has never had another program is `start`. -/
inductive Isolated (start : Node n) : Option (Engagement n) → List (Deed n) → Node n → Prop where
  /-- The operation of the old program is outstanding, and nothing has been done. -/
  | outstanding {operation : Engagement n} {node : Node n}
      (hengaged : node.engagement = some operation) (hpending : node.pending = none)
      (hcore : node.core = start.core) : Isolated start (some operation) [] node
  /-- The operation of the old program has been ended, and then the new one has run. -/
  | ended {operation : Engagement n} {deed : Deed n} {deeds : List (Deed n)} {node : Node n}
      (hends : deed.Ends operation) (hruns : start.Runs deeds node) :
      Isolated start (some operation) (deed :: deeds) node
  /-- The old program had no operation outstanding, and the new one has run. -/
  | free {deeds : List (Deed n)} {node : Node n} (hruns : start.Runs deeds node) :
      Isolated start none deeds node

variable {τ : Type} [DecidableEq τ] {task : τ} {start node after : Node n}
  {engagement : Option (Engagement n)} {operation : Engagement n} {before deeds : List (Deed n)}

/-- The operation that a node has abandoned is what its task is engaged in. -/
theorem engagement_of_abandoned (hpending : node.pending = none) {abandoned : PortOperation}
    (habandoned : node.abandoned = some abandoned) :
    node.engagement = abandoned.engagement node.ports := by
  rw [engagement, hpending, habandoned, Option.none_or, Option.bind_some]

/-- As long as the old operation is outstanding, nothing else can happen than that it
is ended. -/
theorem ends_of_moves (hengaged : node.engagement = some operation) (hpending : node.pending = none)
    (hmoves : node.Moves task deeds after) :
    (deeds = [] ∧ after.engagement = some operation ∧ after.pending = none ∧
        after.core = node.core) ∨
      ∃ deed, deeds = [deed] ∧ deed.Ends operation ∧ after.pending = none ∧
        after.abandoned = none ∧ after.core = node.core := by
  -- what is read or written late is what was abandoned
  have hread : ∀ {port k}, node.abandoned = some (.read port) → node.ports port = some k →
      operation = .receiving k := by
    intro port k habandoned hport
    rw [engagement_of_abandoned hpending habandoned, PortOperation.engagement_read hport] at hengaged
    exact (Option.some.inj hengaged).symm
  have hwrite : ∀ {port value k}, node.abandoned = some (.write port value) →
      node.ports port = some k → operation = .sending k value := by
    intro port value k habandoned hport
    rw [engagement_of_abandoned hpending habandoned, PortOperation.engagement_write hport] at hengaged
    exact (Option.some.inj hengaged).symm
  cases hmoves with
  | begins hsound hidle hstep =>
      rw [hidle] at hengaged
      cases hengaged
  | resumes hstill hresume =>
      have hresumed := resumed_of_resume hresume
      generalize node.resumeDeeds task _ = deeds at hresumed ⊢
      cases hresumed with
      | received hother =>
          rw [hpending] at hother
          cases hother
      | delivered hother =>
          rw [hpending] at hother
          cases hother
      | dropped _ habandoned hport hfinish =>
          cases hread habandoned hport
          exact Or.inr ⟨_, rfl, .drops, hpending, rfl, rfl⟩
      | late _ habandoned hport =>
          cases hwrite habandoned hport
          exact Or.inr ⟨_, rfl, .delivers, hpending, rfl, rfl⟩
      | nothing _ habandoned => exact absurd (engagement_eq_none _ hpending habandoned) hstill
  | withdraws hwithdraw =>
      have hwithdrawn := withdrawn_of_withdraw hwithdraw
      generalize node.withdrawDeeds = deeds at hwithdrawn ⊢
      cases hwithdrawn with
      | read habandoned hport hcancel =>
          cases hread habandoned hport
          exact Or.inr ⟨_, rfl, .withdrawsReceive, hpending, rfl, rfl⟩
      | write habandoned hport hcancel =>
          cases hwrite habandoned hport
          exact Or.inr ⟨_, rfl, .withdrawsSend, hpending, rfl, rfl⟩
  | stalls hstill => exact Or.inl ⟨rfl, hengaged, hpending, rfl⟩
  | rests => exact Or.inl ⟨rfl, hengaged, hpending, rfl⟩

theorem Isolated.moves (hisolated : start.Isolated engagement before node)
    (hmoves : node.Moves task deeds after) : start.Isolated engagement (before ++ deeds) after := by
  cases hisolated with
  | outstanding hengaged hpending hcore =>
      rcases ends_of_moves hengaged hpending hmoves with ⟨rfl, hstill, hnone, hsame⟩ |
        ⟨deed, rfl, hends, hnone, habandoned, hsame⟩
      · exact .outstanding hstill hnone (hsame.trans hcore)
      · exact .ended hends (runs_of_core hnone habandoned (hsame.trans hcore))
  | ended hends hruns => exact .ended hends (hruns.moves hmoves)
  | free hruns => exact .free (hruns.moves hmoves)

/-- A new program begins like that of a node that has never had another one. -/
theorem Sound.isolated_load {allowed : Fin n → Prop} (hsound : node.Sound allowed) (source : String) :
    ((inert node.name node.ports).load source).Isolated node.engagement [] (node.load source) := by
  cases hengaged : node.engagement with
  | some operation => exact .outstanding hengaged rfl rfl
  | none =>
      obtain ⟨hpending, habandoned⟩ := hsound.engagement_eq_none_iff.mp hengaged
      refine .free (runs_of_core rfl ?_ rfl)
      simp [Node.load, reset, hpending, habandoned]

end Node

/-- The participant is a node that has got a new program. -/
def Participant.Isolated (start : Node n) (engagement : Option (Engagement n))
    (deeds : List (Deed n)) (participant : Participant n) : Prop :=
  ∃ node, participant = .node node ∧ start.Isolated engagement deeds node

theorem Participant.Isolated.moves {τ : Type} [DecidableEq τ] {task : τ} {start : Node n}
    {engagement : Option (Engagement n)} {deeds more : List (Deed n)}
    {participant after : Participant n} (hisolated : participant.Isolated start engagement deeds)
    (hmoves : participant.Moves task more after) :
    after.Isolated start engagement (deeds ++ more) := by
  obtain ⟨node, rfl, hnode⟩ := hisolated
  obtain ⟨next, rfl, hnext⟩ := hmoves.node
  exact ⟨next, rfl, hnode.moves hnext⟩

namespace Bench

open Network (Path IsQuiet)

variable {m : ℕ} {wiring : Wiring n}

/-- What becomes of a sound network in which a node gets a new program. -/
theorem isolated_of_sound {bench : Bench m n} (hsound : bench.network.Sound Network.everyone)
    (hquiet : bench.network.IsQuiet) {task : Fin m} {node : Node n}
    (hmember : bench.network.member task = .node node) (source : String)
    {operations : List (Operation m)} (hkeep : ∀ text, .load task text ∉ operations) :
    ∃ last, (bench.load task source).performAll operations = .ok last ∧
      replay bench.network.fabric.channels ((bench.load task source).performAllTrace operations) =
        some last.network.fabric.channels ∧
      (last.network.member task).Isolated ((Node.inert node.name node.ports).load source)
        node.engagement (deedsOf task ((bench.load task source).performAllTrace operations)) := by
  have hloaded : (bench.load task source).network.Sound Network.everyone :=
    hsound.load fun _ _ _ _ _ _ => Finset.mem_univ task
  have hquietLoaded : (bench.load task source).network.IsQuiet := hquiet
  have hnode : (Participant.node node).Sound (task ∈ Network.everyone ·) :=
    hmember ▸ hsound.members task
  -- at first, the old operation is all that there is of the past
  have hstart : ((bench.load task source).network.member task).Isolated
      ((Node.inert node.name node.ports).load source) node.engagement [] := by
    refine ⟨node.load source, ?_, Node.Sound.isolated_load hnode source⟩
    rw [show (bench.load task source).network = bench.network.load task source from rfl,
      Network.member_load_self, hmember]
    rfl
  have hreach : ∀ other, other ≠ task → ∀ k,
      ((bench.load task source).network.member other).Reaches k → other ∈ Network.everyone k :=
    fun other _ _ _ => Finset.mem_univ other
  have hothers : ∀ other text, .load other text ∈ operations → other ≠ task :=
    fun other text hmem heq => hkeep text (heq ▸ hmem)
  obtain ⟨last, hlast, hpath⟩ := exists_path_of_sound hloaded hquietLoaded hothers hreach
  refine ⟨last, hlast, hpath.replay hloaded hreach, ?_⟩
  exact hpath.keeps_member Participant.Isolated.moves hloaded hreach (not_not_intro rfl) hstart

/-- A new program takes effect as if it were the first one of its node, once the operation
of the old program has been ended. -/
theorem isolated_of_load (hfresh : ∀ node ∈ wiring.nodes, node.IsFresh)
    (hroom : ∀ k, wiring.capacities.get k + wiring.size ≤ 2 ^ 63 - 1) {suite : Suite}
    {discipline : Discipline} {before : List (Operation wiring.size)} {bench : Bench wiring.size n}
    (hperform : (ofWiring wiring suite discipline).performAll before = .ok bench)
    {task : Fin wiring.size} (htask : task.val < wiring.nodes.length) (source : String) :
    ∃ node, bench.network.member task = .node node ∧
      (bench.load task source).network.fabric = bench.network.fabric ∧
      (∀ other, other ≠ task →
        (bench.load task source).network.member other = bench.network.member other) ∧
      (∀ broken, node.assemble source = .error broken →
        ((Node.inert node.name node.ports).load source).program = []) ∧
      ∀ operations, (∀ text, .load task text ∉ operations) →
        ∃ last after, (bench.load task source).performAll operations = .ok last ∧
          replay bench.network.fabric.channels
              ((bench.load task source).performAllTrace operations) =
            some last.network.fabric.channels ∧
          last.network.member task = .node after ∧
          ((Node.inert node.name node.ports).load source).Isolated node.engagement
            (deedsOf task ((bench.load task source).performAllTrace operations)) after := by
  have hstart := sound_ofWiring hfresh hroom suite discipline
  obtain ⟨reached, hreached, hsound⟩ := performAll_sound hstart before
  rw [hperform] at hreached
  cases hreached
  obtain ⟨hpath, hquiet⟩ : Path (fun _ => True) .resuming _ _ .resuming bench.network ∧ _ :=
    path_of_performAll (isQuiet_ofWiring wiring suite discipline) (fun _ _ _ => trivial) hperform
  -- a number below that of the nodes belongs to a node
  obtain ⟨node, hmember⟩ : ∃ node, bench.network.member task = .node node := by
    refine hpath.exists_node ?_
    rcases participants_cases (member_ofWiring wiring suite discipline task) with
      ⟨node, -, hnode⟩ | ⟨port, k, hindex, -⟩ | ⟨port, k, hindex, -⟩
    · exact ⟨node, hnode⟩
    · omega
    · omega
  refine ⟨node, hmember, rfl, fun other hne => Network.member_load_of_ne hne,
    fun broken hassemble => Node.program_load_of_error hassemble, fun operations hkeep => ?_⟩
  obtain ⟨last, hlast, hreplay, after, hafter, hisolated⟩ :=
    isolated_of_sound hsound hquiet hmember source hkeep
  exact ⟨last, after, hlast, hreplay, hafter, hisolated⟩

/-- The node of the relay gets a text that is no program, and then a program again, while it
waits with the read of its first program. -/
theorem isolated_relay : (∀ node ∈ relay.nodes, node.IsFresh) ∧
    (∀ k, relay.capacities.get k + relay.size ≤ 2 ^ 63 - 1) ∧
    ∃ bench, (ofWiring relay ⟨⟨[(0, [7, 8])]⟩, ⟨[(0, [7, 8])]⟩⟩ .firstSettled).performAll
        [.tick, .load ⟨0, by decide⟩ "ADD"] = .ok bench ∧
      bench.abandoned? ⟨0, by decide⟩ = some (.read .up) ∧
      ∃ node last after, bench.network.member ⟨0, by decide⟩ = .node node ∧
        (bench.load ⟨0, by decide⟩ "ADD UP").performAll [.tick, .settle, .run 5] = .ok last ∧
        last.network.member ⟨0, by decide⟩ = .node after ∧
        ((Node.inert node.name node.ports).load "ADD UP").Isolated node.engagement
          (deedsOf ⟨0, by decide⟩
            ((bench.load ⟨0, by decide⟩ "ADD UP").performAllTrace [.tick, .settle, .run 5])) after := by
  have hroom : ∀ k, relay.capacities.get k + relay.size ≤ 2 ^ 63 - 1 := by decide
  -- the text that is no program leaves the read behind, too
  have hrun : ((ofWiring relay ⟨⟨[(0, [7, 8])]⟩, ⟨[(0, [7, 8])]⟩⟩ .firstSettled).performAll
      [.tick, .load ⟨0, by decide⟩ "ADD"]).toOption.any (fun bench =>
        bench.abandoned? ⟨0, by decide⟩ == some (.read .up)) = true := by
    decide +kernel
  obtain ⟨bench, hperform, hwaits⟩ := exists_ok_of_any hrun
  obtain ⟨node, hmember, -, -, -, hisolated⟩ :=
    isolated_of_load isFresh_relay hroom hperform
      (show (⟨0, by decide⟩ : Fin relay.size).val < relay.nodes.length by decide) "ADD UP"
  obtain ⟨last, after, hlast, -, hafter, hdeeds⟩ :=
    hisolated [.tick, .settle, .run 5] (by simp)
  exact ⟨isFresh_relay, hroom, bench, hperform, eq_of_beq hwaits, node, last, after, hmember, hlast,
    hafter, hdeeds⟩

end Bench

end NodeGrid

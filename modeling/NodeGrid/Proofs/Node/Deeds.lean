import NodeGrid.Proofs.Fabric.Deeds
import NodeGrid.Proofs.Node.Soundness

/-!
# What a node does in a step

The deeds of a node follow its demand: it asks for a value, and offers one once it
has what it asked for.  `Demand.Served` says what can become of a demand,
`Node.Resumed` how a step goes on that has been woken, and `Node.Withdrawn` how an
abandoned operation is taken back; each with the deeds of the node, with what
becomes of the node, and with the fabric afterwards.

Whatever a node does, it keeps its ports and its program.
-/

namespace NodeGrid

variable {τ : Type} {n : ℕ}

/-! ## Deeds -/

/-- The node at the pause. -/
def Pause.node : Pause n → Node n
  | .settled node => node
  | .writing _ _ node => node

/-- The node at the demand. -/
def Demand.node : Demand n → Node n
  | .paused pause => pause.node
  | .reading _ node => node

/-- The deeds of a node that is served at a pause. -/
def Pause.deeds (task : τ) (fabric : Fabric τ n) : Pause n → List (Deed n)
  | .settled _ => []
  | .writing port value node =>
    following (node.channel port) fun k => [.send k value (fabric.send k value task).1]

/-- The deeds of a node that is given a value that it asked for. -/
def Node.deedsAfterRead (node : Node n) (value : Int64) (task : τ) (fabric : Fabric τ n) :
    List (Deed n) :=
  following (node.pauseAfterRead value) fun pause => pause.deeds task fabric

/-- The deeds of a node that is served with its demand. -/
def Demand.deeds (task : τ) (fabric : Fabric τ n) : Demand n → List (Deed n)
  | .paused pause => pause.deeds task fabric
  | .reading port node =>
    following (node.channel port) fun k =>
      following (fabric.receive k task) fun (status, rest) =>
        .receive k status ::
          match status with
          | .received value => node.deedsAfterRead value task rest
          | .blocked => []

namespace Node

/-- The deeds of a step that begins. -/
def stepDeeds (node : Node n) (task : τ) (fabric : Fabric τ n) : List (Deed n) :=
  following node.demand fun demand => demand.deeds task fabric

/-- The deeds of a step that goes on. -/
def resumeDeeds (node : Node n) (task : τ) (fabric : Fabric τ n) : List (Deed n) :=
  match node.pending.or node.abandoned with
  | some (.read port) =>
    following (node.channel port) fun k =>
      following (fabric.finishReceive k) fun (value, rest) =>
        .finishReceive k value ::
          if node.pending.isSome then
            deedsAfterRead { node with pending := none } value task rest
          else
            []
  | some (.write port value) => following (node.channel port) fun k => [.finishSend k value]
  | none => []

/-- The deed of an abandoned operation that is taken back. -/
def withdrawDeeds (node : Node n) : List (Deed n) :=
  match node.abandoned with
  | some (.read port) => following (node.channel port) fun k => [.cancelReceive k]
  | some (.write port _) => following (node.channel port) fun k => [.cancelSend k]
  | none => []

end Node

/-! ## What can become of a demand -/

/-- What becomes of a node at a pause. -/
inductive Pause.Served (task : τ) (fabric : Fabric τ n) :
    Pause n → List (Deed n) → Node n → Fabric τ n → Prop where
  | settled (node : Node n) : Served task fabric (.settled node) [] node fabric
  | delivered {port : Port} {k : Fin n} {value : Int64} {node : Node n} {rest : Fabric τ n}
      (hport : node.ports port = some k) (hsend : fabric.send k value task = (.delivered, rest)) :
      Served task fabric (.writing port value node) [.send k value .delivered] (node.finish none)
        rest
  | blocked {port : Port} {k : Fin n} {value : Int64} {node : Node n} {rest : Fabric τ n}
      (hport : node.ports port = some k) (hsend : fabric.send k value task = (.blocked, rest)) :
      Served task fabric (.writing port value node) [.send k value .blocked]
        { node with status := .write, pending := some (.write port value) } rest

/-- What becomes of a node with a demand. -/
inductive Demand.Served (task : τ) (fabric : Fabric τ n) :
    Demand n → List (Deed n) → Node n → Fabric τ n → Prop where
  | paused {pause : Pause n} {deeds : List (Deed n)} {after : Node n} {rest : Fabric τ n}
      (hserved : pause.Served task fabric deeds after rest) :
      Served task fabric (.paused pause) deeds after rest
  | blocked {port : Port} {k : Fin n} {node : Node n} {rest : Fabric τ n}
      (hport : node.ports port = some k) (hreceive : fabric.receive k task = .ok (.blocked, rest)) :
      Served task fabric (.reading port node) [.receive k .blocked]
        { node with status := .read, pending := some (.read port) } rest
  | received {port : Port} {k : Fin n} {value : Int64} {node after : Node n} {pause : Pause n}
      {deeds : List (Deed n)} {between rest : Fabric τ n} (hport : node.ports port = some k)
      (hreceive : fabric.receive k task = .ok (.received value, between))
      (hpause : node.pauseAfterRead value = .ok pause)
      (hserved : pause.Served task between deeds after rest) :
      Served task fabric (.reading port node) (.receive k (.received value) :: deeds) after rest

/-- What becomes of a node whose task has been woken. -/
inductive Node.Resumed (task : τ) (fabric : Fabric τ n) :
    Node n → List (Deed n) → Node n → Fabric τ n → Prop where
  | received {node after : Node n} {port : Port} {k : Fin n} {value : Int64} {pause : Pause n}
      {deeds : List (Deed n)} {between rest : Fabric τ n}
      (hpending : node.pending = some (.read port)) (hport : node.ports port = some k)
      (hfinish : fabric.finishReceive k = .ok (value, between))
      (hpause : { node with pending := none }.pauseAfterRead value = .ok pause)
      (hserved : pause.Served task between deeds after rest) :
      Resumed task fabric node (.finishReceive k value :: deeds) after rest
  | delivered {node : Node n} {port : Port} {k : Fin n} {value : Int64}
      (hpending : node.pending = some (.write port value)) (hport : node.ports port = some k) :
      Resumed task fabric node [.finishSend k value]
        (finish { node with pending := none } none) (fabric.finishSend k value)
  | dropped {node : Node n} {port : Port} {k : Fin n} {value : Int64} {rest : Fabric τ n}
      (hpending : node.pending = none) (habandoned : node.abandoned = some (.read port))
      (hport : node.ports port = some k) (hfinish : fabric.finishReceive k = .ok (value, rest)) :
      Resumed task fabric node [.finishReceive k value] { node with abandoned := none } rest
  | late {node : Node n} {port : Port} {k : Fin n} {value : Int64}
      (hpending : node.pending = none) (habandoned : node.abandoned = some (.write port value))
      (hport : node.ports port = some k) :
      Resumed task fabric node [.finishSend k value] { node with abandoned := none }
        (fabric.finishSend k value)
  | nothing {node : Node n} (hpending : node.pending = none) (habandoned : node.abandoned = none) :
      Resumed task fabric node [] node fabric

/-- What becomes of a node that takes back its abandoned operation. -/
inductive Node.Withdrawn [DecidableEq τ] (task : τ) (fabric : Fabric τ n) :
    Node n → List (Deed n) → Node n → Fabric τ n → Prop where
  | read {node : Node n} {port : Port} {k : Fin n} {rest : Fabric τ n}
      (habandoned : node.abandoned = some (.read port)) (hport : node.ports port = some k)
      (hcancel : fabric.cancelReceive k task = some rest) :
      Withdrawn task fabric node [.cancelReceive k] { node with abandoned := none } rest
  | write {node : Node n} {port : Port} {k : Fin n} {value : Int64} {rest : Fabric τ n}
      (habandoned : node.abandoned = some (.write port value)) (hport : node.ports port = some k)
      (hcancel : fabric.cancelSend k task = some rest) :
      Withdrawn task fabric node [.cancelSend k] { node with abandoned := none } rest

variable {node after : Node n} {task : τ} {fabric rest : Fabric τ n} {progress : Progress}

theorem Node.channel_eq_ok_iff {port : Port} {k : Fin n} :
    node.channel port = .ok k ↔ node.ports port = some k := by
  unfold channel
  cases node.ports port <;> simp

theorem Pause.served_of_serve {pause : Pause n}
    (hserve : pause.serve task fabric = .ok (progress, after, rest)) :
    pause.Served task fabric (pause.deeds task fabric) after rest := by
  cases pause with
  | settled node =>
      cases hserve
      exact .settled _
  | writing port value node =>
      obtain ⟨k, hchannel, hsent⟩ := bind_eq_ok.mp hserve
      have hport := Node.channel_eq_ok_iff.mp hchannel
      obtain ⟨⟨status, next⟩, hsend⟩ : ∃ outcome, fabric.send k value task = outcome := ⟨_, rfl⟩
      simp only [hsend] at hsent
      simp only [deeds, hchannel, following_ok, hsend]
      cases status with
      | delivered =>
          cases hsent
          exact .delivered hport hsend
      | blocked =>
          cases hsent
          exact .blocked hport hsend

theorem Demand.served_of_serve {demand : Demand n}
    (hserve : demand.serve task fabric = .ok (progress, after, rest)) :
    demand.Served task fabric (demand.deeds task fabric) after rest := by
  cases demand with
  | paused pause => exact .paused (Pause.served_of_serve hserve)
  | reading port node =>
      obtain ⟨k, hchannel, hasked⟩ := bind_eq_ok.mp hserve
      obtain ⟨⟨status, between⟩, hreceive, hreceived⟩ := bind_eq_ok.mp hasked
      have hport := Node.channel_eq_ok_iff.mp hchannel
      simp only [deeds, hchannel, hreceive, following_ok]
      cases status with
      | blocked =>
          cases hreceived
          exact .blocked hport hreceive
      | received value =>
          obtain ⟨pause, hpause, hpaused⟩ := bind_eq_ok.mp hreceived
          simp only [Node.deedsAfterRead, hpause, following_ok]
          exact .received hport hreceive hpause (Pause.served_of_serve hpaused)

namespace Node

theorem served_of_step (hstep : node.step task fabric = .ok (progress, after, rest)) :
    ∃ demand, node.demand = .ok demand ∧
      demand.Served task fabric (node.stepDeeds task fabric) after rest := by
  rw [step_eq_serve] at hstep
  obtain ⟨demand, hdemand, hserve⟩ := bind_eq_ok.mp hstep
  refine ⟨demand, hdemand, ?_⟩
  simp only [stepDeeds, hdemand, following_ok]
  exact Demand.served_of_serve hserve

theorem resumed_of_resume (hresume : node.resume task fabric = .ok (progress, after, rest)) :
    Resumed task fabric node (node.resumeDeeds task fabric) after rest := by
  -- a node that waits goes on with its instruction; otherwise there may be something abandoned
  cases hpending : node.pending with
  | some operation =>
      cases operation with
      | read port =>
          rw [resume_eq_serve _ _ _ hpending] at hresume
          obtain ⟨k, hchannel, hresume⟩ := bind_eq_ok.mp hresume
          obtain ⟨⟨value, between⟩, hfinish, hresume⟩ := bind_eq_ok.mp hresume
          obtain ⟨pause, hpause, hserve⟩ := bind_eq_ok.mp hresume
          simp only [resumeDeeds, hpending, Option.some_or, hchannel, hfinish, following_ok,
            Option.isSome_some, if_true, deedsAfterRead, hpause]
          exact .received hpending (channel_eq_ok_iff.mp hchannel) hfinish hpause
            (Pause.served_of_serve hserve)
      | write port value =>
          simp only [resume, hpending] at hresume
          obtain ⟨k, hchannel, hresume⟩ := bind_eq_ok.mp hresume
          cases hresume
          simp only [resumeDeeds, hpending, Option.some_or, hchannel, following_ok]
          exact .delivered hpending (channel_eq_ok_iff.mp hchannel)
  | none =>
      simp only [resume, hpending] at hresume
      unfold finishAbandoned at hresume
      cases habandoned : node.abandoned with
      | none =>
          simp only [habandoned] at hresume
          cases hresume
          simp only [resumeDeeds, hpending, habandoned, Option.none_or]
          exact .nothing hpending habandoned
      | some operation =>
          cases operation with
          | read port =>
              simp only [habandoned] at hresume
              obtain ⟨k, hchannel, hresume⟩ := bind_eq_ok.mp hresume
              obtain ⟨⟨value, between⟩, hfinish, hresume⟩ := bind_eq_ok.mp hresume
              cases hresume
              -- the value goes nowhere
              have hdeeds : node.resumeDeeds task fabric = [.finishReceive k value] := by
                simp only [resumeDeeds, hpending, habandoned, Option.none_or, hchannel, hfinish,
                  following_ok, Option.isSome_none, Bool.false_eq_true, if_false]
              rw [hdeeds]
              exact .dropped hpending habandoned (channel_eq_ok_iff.mp hchannel) hfinish
          | write port value =>
              simp only [habandoned] at hresume
              obtain ⟨k, hchannel, hresume⟩ := bind_eq_ok.mp hresume
              cases hresume
              have hdeeds : node.resumeDeeds task fabric = [.finishSend k value] := by
                simp only [resumeDeeds, hpending, habandoned, Option.none_or, hchannel,
                  following_ok]
              rw [hdeeds]
              exact .late hpending habandoned (channel_eq_ok_iff.mp hchannel)

theorem withdrawn_of_withdraw [DecidableEq τ]
    (hwithdraw : node.withdraw task fabric = .ok (some (after, rest))) :
    Withdrawn task fabric node node.withdrawDeeds after rest := by
  unfold withdraw at hwithdraw
  -- only what is abandoned can be withdrawn
  cases habandoned : node.abandoned with
  | none =>
      simp only [habandoned] at hwithdraw
      cases hwithdraw
  | some operation =>
      cases operation with
      | read port =>
          simp only [habandoned] at hwithdraw
          obtain ⟨k, hchannel, hcancelled⟩ := bind_eq_ok.mp hwithdraw
          obtain ⟨next, hcancel, hpair⟩ := Option.map_eq_some_iff.mp (Except.ok.inj hcancelled)
          cases hpair
          simp only [withdrawDeeds, habandoned, hchannel, following_ok]
          exact .read habandoned (channel_eq_ok_iff.mp hchannel) hcancel
      | write port value =>
          simp only [habandoned] at hwithdraw
          obtain ⟨k, hchannel, hcancelled⟩ := bind_eq_ok.mp hwithdraw
          obtain ⟨next, hcancel, hpair⟩ := Option.map_eq_some_iff.mp (Except.ok.inj hcancelled)
          cases hpair
          simp only [withdrawDeeds, habandoned, hchannel, following_ok]
          exact .write habandoned (channel_eq_ok_iff.mp hchannel) hcancel

end Node

/-! ## What a node keeps -/

/-- The second node is the first one further on, with the same operations
outstanding. -/
structure Node.Continues (first second : Node n) : Prop where
  ports_eq : second.ports = first.ports
  compilation_eq : second.compilation = first.compilation
  pending_eq : second.pending = first.pending
  abandoned_eq : second.abandoned = first.abandoned

namespace Node

theorem Continues.trans {first second third : Node n} (hfirst : first.Continues second)
    (hsecond : second.Continues third) : first.Continues third where
  ports_eq := hsecond.ports_eq.trans hfirst.ports_eq
  compilation_eq := hsecond.compilation_eq.trans hfirst.compilation_eq
  pending_eq := hsecond.pending_eq.trans hfirst.pending_eq
  abandoned_eq := hsecond.abandoned_eq.trans hfirst.abandoned_eq

theorem continues_finish (node : Node n) (target : Option ℕ) :
    node.Continues (node.finish target) := ⟨rfl, rfl, rfl, rfl⟩

theorem continues_pauseAfterRead {value : Int64} {pause : Pause n}
    (hpause : node.pauseAfterRead value = .ok pause) : node.Continues pause.node := by
  obtain ⟨acc, target, rfl⟩ | ⟨_, port, -, -, rfl⟩ := pauseAfterRead_eq_ok hpause <;>
    exact ⟨rfl, rfl, rfl, rfl⟩

theorem continues_demandExecute {demand : Demand n} (hdemand : node.demandExecute = .ok demand) :
    node.Continues demand.node := by
  obtain ⟨acc, bak, target, rfl⟩ | ⟨value, pause, hpause, rfl⟩ | ⟨_, port, -, -, rfl⟩ :=
    demandExecute_eq_ok hdemand
  · exact ⟨rfl, rfl, rfl, rfl⟩
  · exact continues_pauseAfterRead hpause
  · exact ⟨rfl, rfl, rfl, rfl⟩

theorem demand_eq (node : Node n) :
    node.demand =
      if node.program.isEmpty then .ok (.paused (.settled node.stall))
      else demandExecute { node.stall with ip := node.nextIp } := rfl

theorem continues_demand {demand : Demand n} (hdemand : node.demand = .ok demand) :
    node.Continues demand.node := by
  rw [demand_eq] at hdemand
  split at hdemand
  · cases hdemand
    exact ⟨rfl, rfl, rfl, rfl⟩
  · have hstarted : node.Continues { node.stall with ip := node.nextIp } := ⟨rfl, rfl, rfl, rfl⟩
    exact hstarted.trans (continues_demandExecute hdemand)

end Node

/-! ## The deeds of a node as deeds of its task -/

section Tasks

variable {deeds : List (Deed n)} {reach : Fin n → Prop}

theorem Node.engagement_eq_none (node : Node n) (hpending : node.pending = none)
    (habandoned : node.abandoned = none) : node.engagement = none := by
  simp [engagement, hpending, habandoned]

/-- A node that has what it asked for has at most a send outstanding. -/
theorem Pause.Served.offers {pause : Pause n} (hserved : pause.Served task fabric deeds after rest)
    (hreach : ∀ port k, pause.node.ports port = some k → reach k)
    (hpending : pause.node.pending = none) (habandoned : pause.node.abandoned = none) :
    fabric.Offers reach task deeds rest after.engagement := by
  cases hserved with
  | settled =>
      rw [Node.engagement_eq_none after hpending habandoned]
      exact .nothing
  | @delivered port k value node rest hport hsend =>
      rw [Node.engagement_eq_none (node.finish none) hpending habandoned]
      exact .send (hreach port k hport) hsend
  | @blocked port k value node rest hport hsend =>
      have hoffers := Fabric.Offers.send (hreach port k hport) hsend
      rwa [Engagement.ofSend, ← PortOperation.engagement_write hport] at hoffers

/-- A step that begins with nothing outstanding. -/
theorem Demand.Served.begins {demand : Demand n}
    (hserved : demand.Served task fabric deeds after rest)
    (hreach : ∀ port k, demand.node.ports port = some k → reach k)
    (hpending : demand.node.pending = none) (habandoned : demand.node.abandoned = none) :
    fabric.Begins reach task deeds rest after.engagement := by
  cases hserved with
  | paused hpaused => exact .offers (hpaused.offers hreach hpending habandoned)
  | @blocked port k node rest hport hreceive =>
      have hbegins := Fabric.Begins.waits (hreach port k hport) hreceive
      rwa [← PortOperation.engagement_read hport] at hbegins
  | @received port k value node after pause deeds between rest hport hreceive hpause hpaused =>
      have hcontinues := Node.continues_pauseAfterRead hpause
      refine .takes (hreach port k hport) hreceive (hpaused.offers ?_
        (hcontinues.pending_eq.trans hpending) (hcontinues.abandoned_eq.trans habandoned))
      rwa [hcontinues.ports_eq]

namespace Node

theorem begins_of_step (hreach : ∀ port k, node.ports port = some k → reach k)
    (hpending : node.pending = none) (habandoned : node.abandoned = none)
    (hstep : node.step task fabric = .ok (progress, after, rest)) :
    fabric.Begins reach task (node.stepDeeds task fabric) rest after.engagement := by
  obtain ⟨demand, hdemand, hserved⟩ := served_of_step hstep
  have hcontinues := continues_demand hdemand
  refine hserved.begins ?_ (hcontinues.pending_eq.trans hpending)
    (hcontinues.abandoned_eq.trans habandoned)
  rwa [hcontinues.ports_eq]

/-- A step that goes on with the operation that was outstanding. -/
theorem Resumed.resumes (hresumed : Resumed task fabric node deeds after rest)
    (hreach : ∀ port k, node.ports port = some k → reach k)
    (hboth : node.pending = none ∨ node.abandoned = none) (hengaged : node.engagement ≠ none) :
    fabric.Resumes reach task node.engagement deeds rest after.engagement := by
  cases hresumed with
  | received hpending hport hfinish hpause hserved =>
      have hcontinues := continues_pauseAfterRead hpause
      -- the operation of the instruction is the only one that is outstanding
      have habandoned : node.abandoned = none := by simpa [hpending] using hboth
      rw [engagement, hpending, Option.some_or, Option.bind_some,
        PortOperation.engagement_read hport]
      refine .takes hfinish (hserved.offers ?_ hcontinues.pending_eq
        (hcontinues.abandoned_eq.trans habandoned))
      rwa [hcontinues.ports_eq]
  | delivered hpending hport =>
      have habandoned : node.abandoned = none := by simpa [hpending] using hboth
      rw [engagement_eq_none (finish { node with pending := none } none) rfl habandoned,
        engagement, hpending, Option.some_or, Option.bind_some,
        PortOperation.engagement_write hport]
      exact .delivers
  | dropped hpending habandoned hport hfinish =>
      rw [engagement_eq_none { node with abandoned := none } hpending rfl, engagement,
        hpending, habandoned, Option.none_or, Option.bind_some, PortOperation.engagement_read hport]
      exact .takes hfinish .nothing
  | late hpending habandoned hport =>
      rw [engagement_eq_none { node with abandoned := none } hpending rfl, engagement,
        hpending, habandoned, Option.none_or, Option.bind_some,
        PortOperation.engagement_write hport]
      exact .delivers
  | nothing hpending habandoned => exact absurd (node.engagement_eq_none hpending habandoned) hengaged

theorem Withdrawn.withdraws [DecidableEq τ] (hwithdrawn : Withdrawn task fabric node deeds after rest)
    (hboth : node.pending = none ∨ node.abandoned = none) :
    fabric.Withdraws task node.engagement deeds rest := by
  cases hwithdrawn with
  | read habandoned hport hcancel =>
      have hpending : node.pending = none := by simpa [habandoned] using hboth
      rw [engagement, hpending, habandoned, Option.none_or, Option.bind_some,
        PortOperation.engagement_read hport]
      exact .receive hcancel
  | write habandoned hport hcancel =>
      have hpending : node.pending = none := by simpa [habandoned] using hboth
      rw [engagement, hpending, habandoned, Option.none_or, Option.bind_some,
        PortOperation.engagement_write hport]
      exact .send hcancel

end Node

/-! ## What a node is connected to -/

theorem Pause.Served.ports_eq {pause : Pause n} (hserved : pause.Served task fabric deeds after rest) :
    after.ports = pause.node.ports := by
  cases hserved <;> rfl

theorem Demand.Served.ports_eq {demand : Demand n}
    (hserved : demand.Served task fabric deeds after rest) : after.ports = demand.node.ports := by
  cases hserved with
  | paused hpaused => exact hpaused.ports_eq
  | blocked hport hreceive => rfl
  | received hport hreceive hpause hpaused =>
      exact hpaused.ports_eq.trans (Node.continues_pauseAfterRead hpause).ports_eq

theorem Node.ports_of_step (hstep : node.step task fabric = .ok (progress, after, rest)) :
    after.ports = node.ports := by
  obtain ⟨demand, hdemand, hserved⟩ := served_of_step hstep
  exact hserved.ports_eq.trans (continues_demand hdemand).ports_eq

theorem Node.Resumed.ports_eq (hresumed : Resumed task fabric node deeds after rest) :
    after.ports = node.ports := by
  cases hresumed with
  | received hpending hport hfinish hpause hserved =>
      exact hserved.ports_eq.trans (continues_pauseAfterRead hpause).ports_eq
  | _ => rfl

theorem Node.Withdrawn.ports_eq [DecidableEq τ]
    (hwithdrawn : Withdrawn task fabric node deeds after rest) : after.ports = node.ports := by
  cases hwithdrawn <;> rfl

end Tasks

end NodeGrid

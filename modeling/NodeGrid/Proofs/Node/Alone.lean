import NodeGrid.Proofs.Node.Deeds

/-!
# What a node does by itself

The communications of a node follow from its program: which value it sends next, and
from which channel it wants to receive next.  `Demand.Leads` is this behaviour of a
node that is left alone with the values that it receives.  It is deterministic up to
those values (`Demand.Leads.agree`).

A node in a network is served sooner or later, and is asked for steps while it waits.
None of this matters to its behaviour: without what depends on it (`Node.core`), the
node is always where the node by itself gets to with the same communications
(`Node.Runs`).
-/

namespace NodeGrid

variable {τ : Type} {n : ℕ}

/-! ## Leading from one demand to another -/

/-- A node that gets from one demand to another by itself, with the communications on
its way. -/
inductive Demand.Leads : Demand n → List (Comm n) → Demand n → Prop where
  | refl (demand : Demand n) : Leads demand [] demand
  /-- A step that is over is followed by the next one. -/
  | begin {node : Node n} {demand last : Demand n} {comms : List (Comm n)}
      (hdemand : node.demand = .ok demand) (hrest : Leads demand comms last) :
      Leads (.paused (.settled node)) comms last
  | sent {node : Node n} {port : Port} {k : Fin n} {value : Int64} {last : Demand n}
      {comms : List (Comm n)} (hport : node.ports port = some k)
      (hrest : Leads (.paused (.settled (node.finish none))) comms last) :
      Leads (.paused (.writing port value node)) (.sent k value :: comms) last
  | received {node : Node n} {port : Port} {k : Fin n} {value : Int64} {pause : Pause n}
      {last : Demand n} {comms : List (Comm n)} (hport : node.ports port = some k)
      (hpause : node.pauseAfterRead value = .ok pause) (hrest : Leads (.paused pause) comms last) :
      Leads (.reading port node) (.received k value :: comms) last

/-- Two lists of communications do not differ, or do so first in a value received. -/
inductive Agree : List (Comm n) → List (Comm n) → Prop where
  | left (second : List (Comm n)) : Agree [] second
  | right (first : List (Comm n)) : Agree first []
  | same {first second : List (Comm n)} (comm : Comm n) (hrest : Agree first second) :
      Agree (comm :: first) (comm :: second)
  | received {first second : List (Comm n)} (k : Fin n) {value other : Int64}
      (hne : value ≠ other) : Agree (.received k value :: first) (.received k other :: second)

namespace Demand.Leads

variable {first second third : Demand n} {before later comms : List (Comm n)}

theorem trans (hfirst : Leads first before second) (hsecond : Leads second later third) :
    Leads first (before ++ later) third := by
  induction hfirst with
  | refl demand => exact hsecond
  | begin hdemand hrest ih => exact .begin hdemand (ih hsecond)
  | sent hport hrest ih => exact .sent hport (ih hsecond)
  | received hport hpause hrest ih => exact .received hport hpause (ih hsecond)

/-- The behaviour of a node depends only on the values that it receives. -/
theorem agree (hfirst : Leads first before second) (hsecond : Leads first later third) :
    Agree before later := by
  induction hfirst generalizing later third with
  | refl demand => exact .left later
  | begin hdemand hrest ih =>
      cases hsecond with
      | refl => exact .right _
      | begin hother hlater =>
          rw [hdemand] at hother
          cases hother
          exact ih hlater
  | sent hport hrest ih =>
      cases hsecond with
      | refl => exact .right _
      | sent hother hlater =>
          rw [hport] at hother
          cases hother
          exact .same _ (ih hlater)
  | @received node port k value pause last comms hport hpause hrest ih =>
      cases hsecond with
      | refl => exact .right _
      | @received _ _ _ other _ _ _ hother hotherPause hlater =>
          rw [hport] at hother
          cases hother
          -- from here on, the two may go separate ways only if the values differ
          by_cases hvalue : value = other
          · subst hvalue
            rw [hpause] at hotherPause
            cases hotherPause
            exact .same _ (ih hlater)
          · exact .received k hvalue

/-- A node keeps its ports and its program. -/
theorem continues (hleads : Leads first comms second) : first.node.Continues second.node := by
  induction hleads with
  | refl demand => exact ⟨rfl, rfl, rfl, rfl⟩
  | begin hdemand hrest ih => exact (Node.continues_demand hdemand).trans ih
  | sent hport hrest ih => exact (Node.continues_finish _ none).trans ih
  | received hport hpause hrest ih => exact (Node.continues_pauseAfterRead hpause).trans ih

end Demand.Leads

/-! ## What does not depend on time -/

/-- The node without what depends on when it is served. -/
def Node.core (node : Node n) : Node n :=
  { node with status := .idle, requested := 0, pending := none, abandoned := none }

/-- The pause of the core. -/
def Pause.core : Pause n → Pause n
  | .settled node => .settled node.core
  | .writing port value node => .writing port value node.core

/-- The demand of the core. -/
def Demand.core : Demand n → Demand n
  | .paused pause => .paused pause.core
  | .reading port node => .reading port node.core

namespace Node

theorem map_pauseAfterRead_core (node : Node n) (value : Int64) :
    (node.core.pauseAfterRead value).map Pause.core =
      (node.pauseAfterRead value).map Pause.core := by
  have hcurrent : node.core.current = node.current := rfl
  unfold pauseAfterRead
  rw [hcurrent]
  cases node.current with
  | error broken => rfl
  | ok instruction =>
      cases instruction with
      | plain operation => rfl
      | jump condition target => rfl
      | unary operation source => cases operation <;> rfl
      | move source target =>
          cases target <;> rfl

theorem map_demandRead_core (node : Node n) (source : Operand) :
    (node.core.demandRead source).map Demand.core = (node.demandRead source).map Demand.core := by
  have hpaused : ∀ value,
      (do return Demand.paused (← node.core.pauseAfterRead value) : Except Fault (Demand n)).map
          Demand.core =
        (do return Demand.paused (← node.pauseAfterRead value) : Except Fault (Demand n)).map
          Demand.core := by
    intro value
    have hmap := node.map_pauseAfterRead_core value
    cases hcore : node.core.pauseAfterRead value <;> cases hnode : node.pauseAfterRead value <;>
      simp_all [Except.map, Demand.core, bind, Except.bind, pure, Except.pure]
  cases source with
  | immediate value => exact hpaused value
  | register register =>
      cases register with
      | acc => exact hpaused node.acc
      | nil => exact hpaused 0
      | port port => rfl

theorem map_demandExecute_core (node : Node n) :
    node.core.demandExecute.map Demand.core = node.demandExecute.map Demand.core := by
  have hcurrent : node.core.current = node.current := rfl
  unfold demandExecute
  rw [hcurrent]
  cases node.current with
  | error broken => rfl
  | ok instruction =>
      cases instruction with
      | plain operation => cases operation <;> rfl
      | jump condition target => rfl
      | unary operation source => exact node.map_demandRead_core source
      | move source target => exact node.map_demandRead_core source

theorem map_demand_core (node : Node n) :
    node.core.demand.map Demand.core = node.demand.map Demand.core := by
  rw [demand_eq, demand_eq]
  have hprogram : node.core.program = node.program := rfl
  rw [hprogram]
  split
  · rfl
  · have hstarted := map_demandExecute_core { node.stall with ip := node.nextIp }
    have hother := map_demandExecute_core { node.core.stall with ip := node.core.nextIp }
    exact hother.symm.trans hstarted

/-- What a computation leads to depends only on the core, if the computation does. -/
theorem exists_of_map_eq {α β : Type} {f : α → β} {first second : Except Fault α} {outcome : α}
    (hmap : first.map f = second.map f) (hsecond : second = .ok outcome) :
    ∃ other, first = .ok other ∧ f other = f outcome := by
  subst hsecond
  cases first with
  | error broken => cases hmap
  | ok other => exact ⟨other, rfl, Except.ok.inj hmap⟩

variable {node other : Node n}

theorem exists_demand_of_core_eq (hcore : node.core = other.core) {demand : Demand n}
    (hdemand : node.demand = .ok demand) :
    ∃ next, other.demand = .ok next ∧ demand.core = next.core := by
  have hmap : other.demand.map Demand.core = node.demand.map Demand.core := by
    rw [← other.map_demand_core, ← node.map_demand_core, hcore]
  obtain ⟨next, hnext, heq⟩ := exists_of_map_eq hmap hdemand
  exact ⟨next, hnext, heq.symm⟩

theorem exists_pause_of_core_eq (hcore : node.core = other.core) {value : Int64} {pause : Pause n}
    (hpause : node.pauseAfterRead value = .ok pause) :
    ∃ next, other.pauseAfterRead value = .ok next ∧ pause.core = next.core := by
  have hmap : (other.pauseAfterRead value).map Pause.core =
      (node.pauseAfterRead value).map Pause.core := by
    rw [← other.map_pauseAfterRead_core, ← node.map_pauseAfterRead_core, hcore]
  obtain ⟨next, hnext, heq⟩ := exists_of_map_eq hmap hpause
  exact ⟨next, hnext, heq.symm⟩

theorem ports_of_core_eq (hcore : node.core = other.core) : node.ports = other.ports :=
  congrArg (·.ports) hcore

end Node

/-! ## Nodes that are served -/

/-- The operation that a node is about to wait with. -/
def Pause.operation? : Pause n → Option PortOperation
  | .settled _ => none
  | .writing port value _ => some (.write port value)

/-- The port operation that is asked for, if any. -/
def Demand.operation? : Demand n → Option PortOperation
  | .paused pause => pause.operation?
  | .reading port _ => some (.read port)

/-- The node waits for what is demanded, and is otherwise the one that demands it. -/
structure Node.At (node : Node n) (demand : Demand n) : Prop where
  pending_eq : node.pending = demand.operation?
  abandoned_eq : node.abandoned = none
  core_eq : node.core = demand.node.core

variable {node after : Node n} {task : τ} {fabric rest : Fabric τ n} {deeds : List (Deed n)}

theorem Pause.core_eq_settled {pause : Pause n} (hcore : (Pause.settled node).core = pause.core) :
    ∃ settled, pause = .settled settled ∧ node.core = settled.core := by
  cases pause with
  | settled settled => exact ⟨settled, rfl, Pause.settled.inj hcore⟩
  | writing port value waiting => simp [Pause.core] at hcore

theorem Pause.core_eq_writing {pause : Pause n} {port : Port} {value : Int64}
    (hcore : (Pause.writing port value node).core = pause.core) :
    ∃ waiting, pause = .writing port value waiting ∧ node.core = waiting.core := by
  cases pause with
  | settled settled => simp [Pause.core] at hcore
  | writing other offered waiting =>
      obtain ⟨rfl, rfl, hnode⟩ := Pause.writing.inj hcore
      exact ⟨waiting, rfl, hnode⟩

theorem Demand.core_eq_paused {pause : Pause n} {demand : Demand n}
    (hcore : (Demand.paused pause).core = demand.core) :
    ∃ other, demand = .paused other ∧ pause.core = other.core := by
  cases demand with
  | paused other => exact ⟨other, rfl, Demand.paused.inj hcore⟩
  | reading port waiting => simp [Demand.core] at hcore

theorem Demand.core_eq_reading {port : Port} {demand : Demand n}
    (hcore : (Demand.reading port node).core = demand.core) :
    ∃ waiting, demand = .reading port waiting ∧ node.core = waiting.core := by
  cases demand with
  | paused pause => simp [Demand.core] at hcore
  | reading other waiting =>
      obtain ⟨rfl, hnode⟩ := Demand.reading.inj hcore
      exact ⟨waiting, rfl, hnode⟩

/-- A node that is served at a pause gets to where it would get by itself. -/
theorem Pause.Served.leads {pause other : Pause n}
    (hserved : pause.Served task fabric deeds after rest) (hcore : pause.core = other.core)
    (hpending : pause.node.pending = none) (habandoned : pause.node.abandoned = none) :
    ∃ demand, Demand.Leads (.paused other) (comms deeds) demand ∧ after.At demand := by
  cases hserved with
  | settled =>
      obtain ⟨settled, rfl, hnode⟩ := Pause.core_eq_settled hcore
      exact ⟨_, .refl _, hpending, habandoned, hnode⟩
  | @delivered port k value node rest hport hsend =>
      obtain ⟨waiting, rfl, hnode⟩ := Pause.core_eq_writing hcore
      rw [Node.ports_of_core_eq hnode] at hport
      refine ⟨_, .sent hport (.refl _), hpending, habandoned, ?_⟩
      exact congrArg (fun core => (core.finish none).core) hnode
  | @blocked port k value node rest hport hsend =>
      obtain ⟨waiting, rfl, hnode⟩ := Pause.core_eq_writing hcore
      exact ⟨_, .refl _, rfl, habandoned, hnode⟩

/-- A node that is served with its demand gets to where it would get by itself. -/
theorem Demand.Served.leads {demand other : Demand n}
    (hserved : demand.Served task fabric deeds after rest) (hcore : demand.core = other.core)
    (hpending : demand.node.pending = none) (habandoned : demand.node.abandoned = none) :
    ∃ last, other.Leads (comms deeds) last ∧ after.At last := by
  cases hserved with
  | paused hpaused =>
      obtain ⟨pause, rfl, hpause⟩ := Demand.core_eq_paused hcore
      exact hpaused.leads hpause hpending habandoned
  | @blocked port k node rest hport hreceive =>
      -- blocked at the channel, the node stands where it asked
      obtain ⟨waiting, rfl, hnode⟩ := Demand.core_eq_reading hcore
      exact ⟨_, .refl _, rfl, habandoned, hnode⟩
  | @received port k value node after pause deeds between rest hport hreceive hpause hpaused =>
      obtain ⟨waiting, rfl, hnode⟩ := Demand.core_eq_reading hcore
      obtain ⟨next, hnext, hnextCore⟩ := Node.exists_pause_of_core_eq hnode hpause
      have hcontinues := Node.continues_pauseAfterRead hpause
      obtain ⟨last, hleads, hat⟩ := hpaused.leads hnextCore (hcontinues.pending_eq.trans hpending)
        (hcontinues.abandoned_eq.trans habandoned)
      rw [Node.ports_of_core_eq hnode] at hport
      exact ⟨last, .received hport hnext hleads, hat⟩

theorem Pause.Served.kept {pause : Pause n} (hserved : pause.Served task fabric deeds after rest) :
    ∀ deed ∈ deeds, ∀ k, deed ≠ .cancelSend k ∧ deed ≠ .cancelReceive k := by
  cases hserved <;> simp

theorem Demand.Served.kept {demand : Demand n}
    (hserved : demand.Served task fabric deeds after rest) :
    ∀ deed ∈ deeds, ∀ k, deed ≠ .cancelSend k ∧ deed ≠ .cancelReceive k := by
  cases hserved with
  | paused hpaused => exact hpaused.kept
  | blocked hport hreceive => simp
  | received hport hreceive hpause hpaused => simpa using hpaused.kept

theorem Demand.eq_settled {demand : Demand n} (hnone : demand.operation? = none) :
    ∃ settled, demand = .paused (.settled settled) := by
  cases demand with
  | reading port waiting => cases hnone
  | paused pause =>
      cases pause with
      | settled settled => exact ⟨settled, rfl⟩
      | writing port value waiting => cases hnone

theorem Demand.eq_reading {demand : Demand n} {port : Port}
    (hread : demand.operation? = some (.read port)) : ∃ waiting, demand = .reading port waiting := by
  cases demand with
  | reading other waiting =>
      cases hread
      exact ⟨waiting, rfl⟩
  | paused pause => cases pause <;> cases hread

theorem Demand.eq_writing {demand : Demand n} {port : Port} {value : Int64}
    (hwrite : demand.operation? = some (.write port value)) :
    ∃ waiting, demand = .paused (.writing port value waiting) := by
  cases demand with
  | reading other waiting => cases hwrite
  | paused pause =>
      cases pause with
      | settled settled => cases hwrite
      | writing other offered waiting =>
          cases hwrite
          exact ⟨waiting, rfl⟩

namespace Node

/-- The node has done these deeds since it was `start`, and nothing that `start` would
not do by itself. -/
structure Runs (start : Node n) (deeds : List (Deed n)) (node : Node n) : Prop where
  leads : ∃ demand, Demand.Leads (.paused (.settled start)) (comms deeds) demand ∧ node.At demand
  /-- Its operations are not withdrawn. -/
  kept : ∀ deed ∈ deeds, ∀ k, deed ≠ .cancelSend k ∧ deed ≠ .cancelReceive k
  /-- Without a program, it uses no port. -/
  inert : start.program = [] → node.pending = none ∧ ∀ deed ∈ deeds, deed = .begin

variable {start : Node n} {before : List (Deed n)} {progress : Progress}

/-- A node that has nothing outstanding and is otherwise like `start` can do nothing but
begin like it. -/
theorem runs_of_core (hpending : node.pending = none) (habandoned : node.abandoned = none)
    (hcore : node.core = start.core) : start.Runs [] node where
  leads := ⟨_, .refl _, hpending, habandoned, hcore⟩
  kept := by simp
  inert _ := ⟨hpending, by simp⟩

theorem Runs.program_eq (hruns : start.Runs before node) : node.program = start.program := by
  obtain ⟨demand, hleads, hat⟩ := hruns.leads
  have hcompilation : node.compilation = start.compilation :=
    (congrArg (·.compilation) hat.core_eq).trans hleads.continues.compilation_eq
  rw [program, program, hcompilation]

theorem Runs.ports_eq (hruns : start.Runs before node) : node.ports = start.ports := by
  obtain ⟨demand, hleads, hat⟩ := hruns.leads
  exact (congrArg (·.ports) hat.core_eq).trans hleads.continues.ports_eq

/-- A node without a program only counts its cycles. -/
theorem step_of_program_nil (hprogram : node.program = []) (task : τ) (fabric : Fabric τ n) :
    node.step task fabric = .ok (.settled, node.stall, fabric) ∧
      node.stepDeeds task fabric = [] := by
  have hdemand : node.demand = .ok (.paused (.settled node.stall)) := by
    rw [demand_eq, if_pos (List.isEmpty_iff.mpr hprogram)]
  rw [step_eq_serve, stepDeeds, hdemand]
  exact ⟨rfl, rfl⟩

theorem Runs.step (hruns : start.Runs before node) (hpending : node.pending = none)
    (hstep : node.step task fabric = .ok (progress, after, rest)) :
    start.Runs (before ++ .begin :: node.stepDeeds task fabric) after := by
  obtain ⟨demand, hleads, hat⟩ := hruns.leads
  obtain ⟨begun, hbegun, hserved⟩ := served_of_step hstep
  refine ⟨?_, ?_, fun hinert => ?_⟩
  · obtain ⟨settled, rfl⟩ := Demand.eq_settled (hat.pending_eq.symm.trans hpending)
    obtain ⟨next, hnext, hcore⟩ := exists_demand_of_core_eq hat.core_eq hbegun
    have hcontinues := continues_demand hbegun
    obtain ⟨last, hlast, hafter⟩ := hserved.leads hcore (hcontinues.pending_eq.trans hpending)
      (hcontinues.abandoned_eq.trans hat.abandoned_eq)
    refine ⟨last, ?_, hafter⟩
    rw [comms_append]
    exact hleads.trans (.begin hnext hlast)
  · exact List.forall_mem_append.mpr
      ⟨hruns.kept, List.forall_mem_cons.mpr ⟨by simp, hserved.kept⟩⟩
  · -- without a program nothing is done
    have hprogram := hruns.program_eq.trans hinert
    obtain ⟨hstall, hdeeds⟩ := step_of_program_nil hprogram task fabric
    rw [hstep] at hstall
    cases hstall
    rw [hdeeds]
    refine ⟨hpending, List.forall_mem_append.mpr ⟨(hruns.inert hinert).2, ?_⟩⟩
    simp

theorem Runs.resume (hruns : start.Runs before node)
    (hresume : node.resume task fabric = .ok (progress, after, rest)) :
    start.Runs (before ++ node.resumeDeeds task fabric) after := by
  obtain ⟨demand, hleads, hat⟩ := hruns.leads
  have hresumed := resumed_of_resume hresume
  -- the deeds are known from what was resumed
  generalize hdeeds : node.resumeDeeds task fabric = deeds at hresumed ⊢
  cases hresumed with
  | @received after port k value pause deeds between rest hpending hport hfinish hpause hserved =>
      obtain ⟨waiting, rfl⟩ := Demand.eq_reading (hat.pending_eq.symm.trans hpending)
      obtain ⟨next, hnext, hcore⟩ := exists_pause_of_core_eq
        (show Node.core { node with pending := none } = waiting.core from hat.core_eq) hpause
      have hcontinues := continues_pauseAfterRead hpause
      obtain ⟨last, hlast, hafter⟩ := hserved.leads hcore hcontinues.pending_eq
        (hcontinues.abandoned_eq.trans hat.abandoned_eq)
      refine ⟨⟨last, ?_, hafter⟩, ?_, fun hinert => ?_⟩
      · rw [comms_append]
        rw [show node.ports = waiting.ports from ports_of_core_eq hat.core_eq] at hport
        exact hleads.trans (.received hport hnext hlast)
      · exact List.forall_mem_append.mpr
          ⟨hruns.kept, List.forall_mem_cons.mpr ⟨by simp, hserved.kept⟩⟩
      · have hnone := (hruns.inert hinert).1
        rw [hpending] at hnone
        cases hnone
  | @delivered port k value hpending hport =>
      obtain ⟨waiting, rfl⟩ := Demand.eq_writing (hat.pending_eq.symm.trans hpending)
      refine ⟨⟨.paused (.settled (waiting.finish none)), ?_, rfl, hat.abandoned_eq, ?_⟩, ?_,
        fun hinert => ?_⟩
      · rw [comms_append]
        rw [show node.ports = waiting.ports from ports_of_core_eq hat.core_eq] at hport
        exact hleads.trans (.sent hport (.refl _))
      · exact congrArg (fun core => (core.finish none).core) hat.core_eq
      · exact List.forall_mem_append.mpr ⟨hruns.kept, by simp⟩
      · have hnone := (hruns.inert hinert).1
        rw [hpending] at hnone
        cases hnone
  | dropped hpending habandoned hport hfinish =>
      -- nothing is abandoned in a run without a load
      rw [hat.abandoned_eq] at habandoned
      cases habandoned
  | late hpending habandoned hport =>
      rw [hat.abandoned_eq] at habandoned
      cases habandoned
  | nothing hpending habandoned =>
      rw [List.append_nil]
      exact hruns

/-- A node that waits does nothing. -/
theorem Runs.stall (hruns : start.Runs before node) : start.Runs before node.stall where
  leads := by
    obtain ⟨demand, hleads, hat⟩ := hruns.leads
    exact ⟨demand, hleads, hat.pending_eq, hat.abandoned_eq, hat.core_eq⟩
  kept := hruns.kept
  inert := hruns.inert

/-- A node that runs its own program has nothing to give up. -/
theorem Runs.withdraw_ne [DecidableEq τ] (hruns : start.Runs before node) :
    node.withdraw task fabric ≠ .ok (some (after, rest)) := by
  obtain ⟨demand, -, hat⟩ := hruns.leads
  intro hwithdraw
  rw [withdraw, hat.abandoned_eq] at hwithdraw
  cases hwithdraw

/-- What can happen to a node, and what it does then. -/
inductive Moves [DecidableEq τ] (task : τ) : Node n → List (Deed n) → Node n → Prop where
  | begins {node after : Node n} {allowed : Fin n → Prop} {fabric rest : Fabric τ n}
      {progress : Progress} (hsound : node.Sound allowed) (hidle : node.engagement = none)
      (hstep : node.step task fabric = .ok (progress, after, rest)) :
      Moves task node (.begin :: node.stepDeeds task fabric) after
  | resumes {node after : Node n} {fabric rest : Fabric τ n} {progress : Progress}
      (hengaged : node.engagement ≠ none)
      (hresume : node.resume task fabric = .ok (progress, after, rest)) :
      Moves task node (node.resumeDeeds task fabric) after
  | withdraws {node after : Node n} {fabric rest : Fabric τ n}
      (hwithdraw : node.withdraw task fabric = .ok (some (after, rest))) :
      Moves task node node.withdrawDeeds after
  | stalls {node : Node n} (hengaged : node.engagement ≠ none) : Moves task node [] node.stall
  | rests {node : Node n} : Moves task node [] node

/-- Whatever happens to a node, it does what it would do by itself. -/
theorem Runs.moves [DecidableEq τ] (hruns : start.Runs before node)
    (hmoves : node.Moves task deeds after) : start.Runs (before ++ deeds) after := by
  cases hmoves with
  | begins hsound hidle hstep =>
      exact hruns.step (hsound.engagement_eq_none_iff.mp hidle).1 hstep
  | resumes hengaged hresume => exact hruns.resume hresume
  | withdraws hwithdraw => exact absurd hwithdraw hruns.withdraw_ne
  | stalls hengaged =>
      rw [List.append_nil]
      exact hruns.stall
  | rests =>
      rw [List.append_nil]
      exact hruns

end Node

end NodeGrid

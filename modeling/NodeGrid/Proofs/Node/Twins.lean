import NodeGrid.Proofs.Node.Demand
import NodeGrid.Proofs.Node.Soundness
import NodeGrid.Proofs.Peephole.NormalForm

/-!
# Nodes that keep step

If the optimiser does not make a program shorter, it has left every instruction in its
place: a jump may name the position it leads to in another way, and an instruction may
have become a plainer one (`Program.parallels_optimize`).  A node with the one program
and a node with the other are `Twins`, which agree in all their data (`Node.Agrees`).

Twins begin a step with the same demand (`Twins.demand`), and so every fabric makes the
same of their steps (`Mirrors.step`).  A step that waits for a value goes on with its
instruction when the value has come in, so that instruction has to be the same in both
programs; it is, because an instruction that reads a port has no plainer form.  That is
what `Mirrors` adds to twins, together with what holds of a node whose step is over.
Nothing has to be known of the fabric, which may even let both nodes fault.
-/

namespace NodeGrid

open List (Forall₂)

/-! ## Programs -/

namespace Instruction

/-- In a program of the given length, the second instruction can stand for the first. -/
inductive Stands (length : ℕ) : Instruction → Instruction → Prop where
  | same (instruction : Instruction) : Stands length instruction instruction
  | simpler {instruction simpler : Instruction}
      (hsimplify : instruction.simplify? = some simpler) : Stands length instruction simpler
  | wrapped (condition : Condition) (target : ℕ) :
      Stands length (.jump condition target) (.jump condition (target % length))

theorem Stands.ports_eq {length : ℕ} {instruction other : Instruction}
    (hstands : Stands length instruction other) : other.ports = instruction.ports := by
  cases hstands with
  | same => rfl
  | wrapped condition target => rfl
  | simpler hsimplify =>
      unfold simplify? at hsimplify
      split at hsimplify <;> cases hsimplify <;> rfl

theorem stands_simplified (length : ℕ) (instruction : Instruction) :
    Stands length instruction instruction.simplified := by
  cases hsimplify : instruction.simplify? with
  | none =>
      rw [simplified_of_simplify?_eq_none hsimplify]
      exact .same instruction
  | some simpler =>
      rw [simplified_of_simplify? hsimplify]
      exact .simpler hsimplify

theorem stands_wrapped (length : ℕ) (instruction : Instruction) :
    Stands length instruction
      (instruction.mapTarget fun target => target % length).simplified := by
  cases instruction with
  | jump condition target => exact .wrapped condition target
  | plain operation => exact stands_simplified length _
  | unary operation source => exact stands_simplified length _
  | move source target => exact stands_simplified length _

end Instruction

namespace Program

/-- Every instruction of the second program can stand for the one at its place in the
first. -/
def Parallels (code other : Program) : Prop :=
  Forall₂ (Instruction.Stands code.length) code other

variable {code other : Program}

theorem Parallels.refl (code : Program) : code.Parallels code :=
  List.forall₂_same.mpr fun instruction _ => .same instruction

theorem Parallels.length_eq (hparallels : code.Parallels other) : other.length = code.length :=
  (List.Forall₂.length_eq hparallels).symm

theorem Parallels.map_ports_eq (hparallels : code.Parallels other) :
    other.map Instruction.ports = code.map Instruction.ports := by
  rw [← List.forall₂_eq_eq_eq, List.forall₂_map_left_iff, List.forall₂_map_right_iff]
  exact hparallels.flip.imp fun _ _ hstands => hstands.ports_eq

/-- An optimised program that is not shorter parallels the original. -/
theorem parallels_optimize (hlength : code.optimize.length = code.length) :
    code.Parallels code.optimize := by
  rw [Parallels, optimize_eq_map_simplified hlength, wrapTargets, List.forall₂_map_right_iff,
    List.forall₂_map_right_iff, List.forall₂_same]
  exact fun instruction _ => instruction.stands_wrapped code.length

end Program

variable {n : ℕ}

namespace Node

/-! ## Twins -/

/-- The nodes are wired alike, have the same data and wait for the same. -/
structure Agrees (node other : Node n) : Prop where
  ports_eq : other.ports = node.ports
  acc_eq : other.acc = node.acc
  bak_eq : other.bak = node.bak
  ip_eq : other.ip = node.ip
  nextIp_eq : other.nextIp = node.nextIp
  status_eq : other.status = node.status
  requested_eq : other.requested = node.requested
  executed_eq : other.executed = node.executed
  pending_eq : other.pending = node.pending
  abandoned_eq : other.abandoned = node.abandoned

/-- The nodes agree and have programs that do the same step by step. -/
structure Twins (node other : Node n) : Prop extends node.Agrees other where
  parallels : node.program.Parallels other.program

/-- No operation of the node is left in a channel. -/
structure IsFree (node : Node n) : Prop where
  pending_eq : node.pending = none
  abandoned_eq : node.abandoned = none

variable {node other : Node n}

theorem Agrees.refl (node : Node n) : node.Agrees node :=
  ⟨rfl, rfl, rfl, rfl, rfl, rfl, rfl, rfl, rfl, rfl⟩

/-- Whatever program they get, nodes that agree agree afterwards. -/
theorem Agrees.load (hagrees : node.Agrees other) (text late : String) :
    (node.load text).Agrees (other.load late) where
  ports_eq := hagrees.ports_eq
  acc_eq := rfl
  bak_eq := rfl
  ip_eq := rfl
  nextIp_eq := rfl
  status_eq := rfl
  requested_eq := rfl
  executed_eq := rfl
  pending_eq := rfl
  abandoned_eq := by simp only [Node.load, reset, hagrees.pending_eq, hagrees.abandoned_eq]

theorem IsFree.load (hfree : node.IsFree) (text : String) : (node.load text).IsFree :=
  ⟨rfl, by simp [Node.load, reset, hfree.pending_eq, hfree.abandoned_eq]⟩

theorem Twins.isEmpty_eq (htwins : node.Twins other) :
    other.program.isEmpty = node.program.isEmpty := by
  rw [Bool.eq_iff_iff, List.isEmpty_iff_length_eq_zero, List.isEmpty_iff_length_eq_zero,
    htwins.parallels.length_eq]

theorem Twins.channel_eq (htwins : node.Twins other) (port : Port) :
    other.channel port = node.channel port := by
  rw [channel, channel, htwins.ports_eq]

theorem Twins.current (htwins : node.Twins other) :
    SameEnd (Instruction.Stands node.program.length) node.current other.current := by
  have hparallels := htwins.parallels
  unfold Node.current
  rw [htwins.ip_eq]
  rcases Nat.lt_or_ge node.ip node.program.length with hlt | hge
  · have hlater : node.ip < other.program.length := hparallels.length_eq.symm ▸ hlt
    rw [List.getElem?_eq_getElem hlt, List.getElem?_eq_getElem hlater]
    exact .ok (List.Forall₂.get hparallels hlt hlater)
  · rw [List.getElem?_eq_none hge, List.getElem?_eq_none (hparallels.length_eq.symm ▸ hge)]
    exact .error .noInstruction

/-- Twins complete an instruction in the same way if it leads to the same place. -/
theorem Twins.finish (htwins : node.Twins other) {target late : Option ℕ}
    (htarget : late.getD (node.ip + 1) % node.program.length =
      target.getD (node.ip + 1) % node.program.length) :
    (node.finish target).Twins (other.finish late) :=
  { htwins with
    nextIp_eq := by
      simp only [Node.finish, htwins.isEmpty_eq, htwins.nextIp_eq, htwins.ip_eq,
        htwins.parallels.length_eq, htarget]
    status_eq := rfl
    executed_eq := congrArg (· + 1) htwins.executed_eq }

theorem Twins.setAcc (htwins : node.Twins other) {value late : Int64} (hvalue : late = value) :
    Twins { node with acc := value } { other with acc := late } :=
  { htwins with acc_eq := hvalue }

theorem Twins.applyPlain (htwins : node.Twins other) (operation : Plain) :
    (node.applyPlain operation).Twins (other.applyPlain operation) := by
  cases operation with
  | nop => exact htwins
  | neg => exact htwins.setAcc (congrArg (- ·) htwins.acc_eq)
  | sav => exact { htwins with bak_eq := htwins.acc_eq }
  | swp => exact { htwins with acc_eq := htwins.bak_eq, bak_eq := htwins.acc_eq }

theorem IsFree.finish (hfree : node.IsFree) (target : Option ℕ) : (node.finish target).IsFree :=
  ⟨hfree.pending_eq, hfree.abandoned_eq⟩

theorem IsFree.setAcc (hfree : node.IsFree) (value : Int64) :
    IsFree { node with acc := value } :=
  ⟨hfree.pending_eq, hfree.abandoned_eq⟩

theorem IsFree.applyPlain (hfree : node.IsFree) (operation : Plain) :
    (node.applyPlain operation).IsFree := by
  cases operation <;> exact ⟨hfree.pending_eq, hfree.abandoned_eq⟩

end Node

/-! ## Demands -/

/-- Twins come to the same pause. -/
inductive Pause.Twins : Pause n → Pause n → Prop where
  | settled {node other : Node n} (htwins : node.Twins other) (hfree : node.IsFree) :
      Twins (.settled node) (.settled other)
  | writing {port : Port} {value : Int64} {node other : Node n} (htwins : node.Twins other)
      (hfree : node.IsFree) : Twins (.writing port value node) (.writing port value other)

/-- Twins that complete an instruction have settled. -/
theorem Pause.Twins.finish {node other : Node n} (htwins : node.Twins other) (hfree : node.IsFree)
    {target late : Option ℕ}
    (htarget : late.getD (node.ip + 1) % node.program.length =
      target.getD (node.ip + 1) % node.program.length) :
    Pause.Twins (.settled (node.finish target)) (.settled (other.finish late)) :=
  .settled (htwins.finish htarget) (hfree.finish target)

/-- Twins have the same demand.  If they ask for a value, they will do the same with it. -/
inductive Demand.Twins : Demand n → Demand n → Prop where
  | paused {pause other : Pause n} (hpause : pause.Twins other) :
      Twins (.paused pause) (.paused other)
  | reading {port : Port} {node other : Node n} (htwins : node.Twins other)
      (hfree : node.IsFree) (hcurrent : other.current = node.current) :
      Twins (.reading port node) (.reading port other)

namespace Node.Twins

variable {node other : Node n}

theorem pauseWrite (htwins : node.Twins other) (hfree : node.IsFree) (target : Register)
    (value : Int64) : (node.pauseWrite target value).Twins (other.pauseWrite target value) := by
  cases target with
  | acc => exact .finish (htwins.setAcc rfl) (hfree.setAcc value) rfl
  | nil => exact .finish htwins hfree rfl
  | port port => exact .writing htwins hfree

/-- Twins go on alike with a value that the same instruction has read. -/
theorem pauseAfterRead (htwins : node.Twins other) (hfree : node.IsFree)
    (hcurrent : other.current = node.current) (value : Int64) :
    SameEnd Pause.Twins (node.pauseAfterRead value) (other.pauseAfterRead value) := by
  unfold Node.pauseAfterRead
  rw [hcurrent]
  refine .bind_same fun instruction => ?_
  cases instruction with
  | plain operation => exact .error _
  | jump condition target => exact .error _
  | move source target => exact .ok (htwins.pauseWrite hfree target value)
  | unary operation source =>
      cases operation with
      | add =>
          have hacc : other.acc + value = node.acc + value := by rw [htwins.acc_eq]
          exact .ok (.finish (htwins.setAcc hacc) (hfree.setAcc _) rfl)
      | sub =>
          have hacc : other.acc - value = node.acc - value := by rw [htwins.acc_eq]
          exact .ok (.finish (htwins.setAcc hacc) (hfree.setAcc _) rfl)
      | jro =>
          -- relative jumps count from the index, which the optimiser has kept
          have htarget : relativeTarget other.ip value = relativeTarget node.ip value := by
            rw [htwins.ip_eq]
          exact .ok (.finish htwins hfree (by rw [htarget]))

theorem demandRead (htwins : node.Twins other) (hfree : node.IsFree)
    (hcurrent : other.current = node.current) (source : Operand) :
    SameEnd Demand.Twins (node.demandRead source) (other.demandRead source) := by
  have hpaused : ∀ value, SameEnd Demand.Twins
      (node.pauseAfterRead value >>= fun pause => pure (Demand.paused pause))
      (other.pauseAfterRead value >>= fun pause => pure (Demand.paused pause)) := fun value =>
    (htwins.pauseAfterRead hfree hcurrent value).bind fun _ _ hpause => .ok (.paused hpause)
  cases source with
  | immediate value => exact hpaused value
  | register register =>
      cases register with
      | acc =>
          unfold Node.demandRead
          rw [htwins.acc_eq]
          exact hpaused node.acc
      | nil => exact hpaused 0
      | port port => exact .ok (.reading htwins hfree hcurrent)

/-- An instruction and its plainer form leave the same in the accumulator. -/
theorem demandExecute_of_simplify? {instruction simpler : Instruction}
    (htwins : node.Twins other) (hfree : node.IsFree)
    (hsimplify : instruction.simplify? = some simpler) (hcurrent : node.current = .ok instruction)
    (hcurrentOther : other.current = .ok simpler) :
    SameEnd Demand.Twins node.demandExecute other.demandExecute := by
  -- all three forms end with a new value of the accumulator
  have hsettled : ∀ {value late : Int64}, late = value →
      SameEnd Demand.Twins
        (.ok (.paused (.settled (Node.finish { node with acc := value } none))))
        (.ok (.paused (.settled (Node.finish { other with acc := late } none)))) :=
    fun hvalue => .ok (.paused (.finish (htwins.setAcc hvalue) (hfree.setAcc _) rfl))
  unfold Instruction.simplify? at hsimplify
  split at hsimplify
  · rename_i value
    cases hsimplify
    -- to subtract is to add the negative value
    have hacc : other.acc + -value = node.acc - value := by
      rw [htwins.acc_eq, Int64.sub_eq_add_neg]
    simp only [Node.demandExecute, Node.demandRead, Node.pauseAfterRead, hcurrent, hcurrentOther,
      ok_bind]
    exact hsettled hacc
  · cases hsimplify
    have hacc : (0 : Int64) = node.acc - node.acc := by simp
    simp only [Node.demandExecute, Node.demandRead, Node.pauseAfterRead, hcurrent, hcurrentOther,
      ok_bind, Instruction.clear]
    exact hsettled hacc
  · cases hsimplify
    simp only [Node.demandExecute, Node.demandRead, Node.pauseAfterRead, hcurrent, hcurrentOther,
      ok_bind, Instruction.clear]
    exact hsettled rfl
  · cases hsimplify

theorem demandExecute (htwins : node.Twins other) (hfree : node.IsFree) :
    SameEnd Demand.Twins node.demandExecute other.demandExecute := by
  rcases htwins.current.exists_of with ⟨instruction, late, hcurrent, hcurrentOther, hstands⟩ |
    ⟨broken, hcurrent, hcurrentOther⟩
  · cases hstands with
    | simpler hsimplify =>
        exact htwins.demandExecute_of_simplify? hfree hsimplify hcurrent hcurrentOther
    | wrapped condition target =>
        -- the target is the same up to the length of the program
        simp only [Node.demandExecute, hcurrent, hcurrentOther, ok_bind, htwins.acc_eq]
        refine .ok (.paused (.finish htwins hfree ?_))
        by_cases hholds : condition.holds node.acc = true
        · simp [hholds]
        · simp [hholds]
    | same =>
        have hsame : other.current = node.current := hcurrentOther.trans hcurrent.symm
        simp only [Node.demandExecute, hcurrent, hcurrentOther, ok_bind]
        cases instruction with
        | plain operation =>
            exact .ok (.paused
              (.finish (htwins.applyPlain operation) (hfree.applyPlain operation) rfl))
        | unary operation source => exact htwins.demandRead hfree hsame source
        | move source target => exact htwins.demandRead hfree hsame source
        | jump condition target =>
            simp only [htwins.acc_eq]
            exact .ok (.paused (.finish htwins hfree rfl))
  · simp only [Node.demandExecute, hcurrent, hcurrentOther]
    exact .error broken

/-- Twins begin a step with the same demand. -/
theorem demand (htwins : node.Twins other) (hfree : node.IsFree) :
    SameEnd Demand.Twins node.demand other.demand := by
  have hcounted : Node.Twins { node with requested := node.requested + 1 }
      { other with requested := other.requested + 1 } :=
    { htwins with requested_eq := congrArg (· + 1) htwins.requested_eq }
  unfold Node.demand
  simp only [hcounted.isEmpty_eq]
  split
  · exact .ok (.paused (.settled hcounted ⟨hfree.pending_eq, hfree.abandoned_eq⟩))
  · have hstarted : Node.Twins { node with requested := node.requested + 1, ip := node.nextIp }
        { other with requested := other.requested + 1, ip := other.nextIp } :=
      { hcounted with ip_eq := htwins.nextIp_eq }
    exact hstarted.demandExecute ⟨hfree.pending_eq, hfree.abandoned_eq⟩

end Node.Twins

/-! ## Steps -/

/-- Two steps have come equally far and left the fabric in the same state.  How the two
who have taken them are related may depend on whether the step waits. -/
inductive StepsAlike {τ α β : Type} (related : Bool → α → β → Prop) :
    Progress × α × Fabric τ n → Progress × β × Fabric τ n → Prop where
  | intro {progress : Progress} {after : α} {other : β} {fabric : Fabric τ n}
      (hrelated : related (progress = .pending) after other) :
      StepsAlike related (progress, after, fabric) (progress, other, fabric)

namespace Node

/-- Twins in a network, with a step outstanding or not.  If they wait for a value, they
will do the same with it. -/
structure Mirrors (inFlight : Bool) (node other : Node n) : Prop where
  twins : node.Twins other
  isFree : inFlight = false → node.IsFree
  single : node.pending = none ∨ node.abandoned = none
  current_eq : ∀ port, node.pending = some (.read port) → other.current = node.current

variable {τ : Type} {task : τ} {fabric : Fabric τ n} {node other : Node n} {inFlight : Bool}

theorem Twins.mirrors (htwins : node.Twins other) (hfree : node.IsFree) :
    node.Mirrors false other where
  twins := htwins
  isFree _ := hfree
  single := Or.inl hfree.pending_eq
  current_eq port hpending := by
    rw [hfree.pending_eq] at hpending
    cases hpending

theorem Twins.serve_pause {pause late : Pause n} (htwins : pause.Twins late) (task : τ)
    (fabric : Fabric τ n) :
    SameEnd (StepsAlike Mirrors) (pause.serve task fabric) (late.serve task fabric) := by
  cases htwins with
  | settled htwins hfree => exact .ok (.intro (htwins.mirrors hfree))
  | @writing port value node other htwins hfree =>
      simp only [Pause.serve, htwins.channel_eq]
      -- the same send on the same fabric has the same outcome
      refine .bind_same fun k => ?_
      rcases fabric.send k value task with ⟨status, rest⟩
      cases status with
      | delivered =>
          exact .ok (.intro ((htwins.finish rfl).mirrors (hfree.finish none)))
      | blocked =>
          refine .ok (.intro ⟨{ htwins with status_eq := rfl, pending_eq := rfl }, ?_, ?_, ?_⟩)
          · intro hsettled
            cases hsettled
          · exact Or.inr hfree.abandoned_eq
          · intro port hpending
            cases hpending

theorem Twins.serve_demand {demand late : Demand n} (htwins : demand.Twins late) (task : τ)
    (fabric : Fabric τ n) :
    SameEnd (StepsAlike Mirrors) (demand.serve task fabric) (late.serve task fabric) := by
  cases htwins with
  | paused hpause => exact Twins.serve_pause hpause task fabric
  | @reading port node other htwins hfree hcurrent =>
      simp only [Demand.serve, htwins.channel_eq]
      refine .bind_same fun k => .bind_same fun outcome => ?_
      rcases outcome with ⟨status, rest⟩
      cases status with
      | received value =>
          exact (htwins.pauseAfterRead hfree hcurrent value).bind fun _ _ hpause =>
            Twins.serve_pause hpause task rest
      | blocked =>
          refine .ok (.intro ⟨{ htwins with status_eq := rfl, pending_eq := rfl }, ?_, ?_, ?_⟩)
          · intro hsettled
            cases hsettled
          · exact Or.inr hfree.abandoned_eq
          · -- when the value comes, both go on with the instruction at which they stopped
            exact fun _ _ => hcurrent

/-- Twins that are free begin the same step. -/
theorem Mirrors.step (hmirrors : node.Mirrors false other) (task : τ) (fabric : Fabric τ n) :
    SameEnd (StepsAlike Mirrors) (node.step task fabric) (other.step task fabric) := by
  rw [step_eq_serve, step_eq_serve]
  exact (hmirrors.twins.demand (hmirrors.isFree rfl)).bind fun _ _ hdemand =>
    Twins.serve_demand hdemand task fabric

theorem IsFree.resume (hfree : node.IsFree) (task : τ) (fabric : Fabric τ n) :
    node.resume task fabric = .ok (.settled, node, fabric) := by
  simp only [Node.resume, hfree.pending_eq, finishAbandoned, hfree.abandoned_eq]

theorem Mirrors.finishAbandoned (hmirrors : node.Mirrors inFlight other)
    (hpending : node.pending = none) (fabric : Fabric τ n) :
    SameEnd (StepsAlike Mirrors) (node.finishAbandoned fabric) (other.finishAbandoned fabric) := by
  have htwins := hmirrors.twins
  have hdropped : Mirrors false { node with abandoned := none } { other with abandoned := none } :=
    Twins.mirrors { htwins with abandoned_eq := rfl } ⟨hpending, rfl⟩
  unfold Node.finishAbandoned
  rw [htwins.abandoned_eq]
  cases habandoned : node.abandoned with
  | none => exact .ok (.intro (htwins.mirrors ⟨hpending, habandoned⟩))
  | some operation =>
      cases operation with
      | read port =>
          simp only [htwins.channel_eq]
          exact .bind_same fun k => .bind_same fun received => .ok (.intro hdropped)
      | write port value =>
          simp only [htwins.channel_eq]
          exact .bind_same fun k => .ok (.intro hdropped)

/-- Twins go on with the same step, and are free if it is over. -/
theorem Mirrors.resume (hmirrors : node.Mirrors inFlight other) (task : τ) (fabric : Fabric τ n) :
    SameEnd (StepsAlike fun isPending => Mirrors (isPending && inFlight))
      (node.resume task fabric) (other.resume task fabric) := by
  have htwins := hmirrors.twins
  cases inFlight with
  | false =>
      -- a member that is not in flight has nothing to go on with
      have hfree := hmirrors.isFree rfl
      have hfreeOther : other.IsFree :=
        ⟨htwins.pending_eq.trans hfree.pending_eq, htwins.abandoned_eq.trans hfree.abandoned_eq⟩
      rw [hfree.resume, hfreeOther.resume]
      exact .ok (.intro hmirrors)
  | true =>
      simp only [Bool.and_true]
      cases hpending : node.pending with
      | none =>
          have hpendingOther : other.pending = none := htwins.pending_eq.trans hpending
          simp only [Node.resume, hpending, hpendingOther]
          exact hmirrors.finishAbandoned hpending fabric
      | some operation =>
          have hpendingOther : other.pending = some operation := htwins.pending_eq.trans hpending
          -- with an operation of its own, nothing is abandoned
          have habandoned : node.abandoned = none :=
            hmirrors.single.resolve_left (by simp [hpending])
          have hreturned : Twins { node with pending := none } { other with pending := none } :=
            { htwins with pending_eq := rfl }
          have hfree : IsFree { node with pending := none } := ⟨rfl, habandoned⟩
          cases operation with
          | read port =>
              rw [resume_eq_serve node task fabric hpending,
                resume_eq_serve other task fabric hpendingOther, htwins.channel_eq]
              refine .bind_same fun k => .bind_same fun received => ?_
              exact (hreturned.pauseAfterRead hfree (hmirrors.current_eq port hpending) _).bind
                fun _ _ hpause => Twins.serve_pause hpause task _
          | write port value =>
              simp only [Node.resume, hpending, hpendingOther, htwins.channel_eq]
              exact .bind_same fun k =>
                .ok (.intro ((hreturned.finish rfl).mirrors (hfree.finish none)))

/-- Twins give up the same operation. -/
theorem Mirrors.withdraw [DecidableEq τ] (hmirrors : node.Mirrors inFlight other) (task : τ)
    (fabric : Fabric τ n) :
    SameEnd (Option.Rel fun first second => first.2 = second.2 ∧ first.1.Mirrors false second.1)
      (node.withdraw task fabric) (other.withdraw task fabric) := by
  have htwins := hmirrors.twins
  unfold Node.withdraw
  rw [htwins.abandoned_eq]
  cases habandoned : node.abandoned with
  | none => exact .ok .none
  | some operation =>
      have hpending : node.pending = none := hmirrors.single.resolve_right (by simp [habandoned])
      have hdropped : Mirrors false { node with abandoned := none } { other with abandoned := none } :=
        Twins.mirrors { htwins with abandoned_eq := rfl } ⟨hpending, rfl⟩
      -- whether the channel lets the operation go does not depend on the node
      have hmap : ∀ cancelled : Option (Fabric τ n),
          Option.Rel (fun first second => first.2 = second.2 ∧ first.1.Mirrors false second.1)
            (cancelled.map fun fabric => (({ node with abandoned := none } : Node n), fabric))
            (cancelled.map fun fabric => (({ other with abandoned := none } : Node n), fabric)) := by
        intro cancelled
        cases cancelled with
        | none => exact .none
        | some fabric => exact .some ⟨rfl, hdropped⟩
      cases operation with
      | read port =>
          simp only [htwins.channel_eq]
          exact .bind_same fun k => .ok (hmap _)
      | write port value =>
          simp only [htwins.channel_eq]
          exact .bind_same fun k => .ok (hmap _)

theorem Mirrors.stall (hmirrors : node.Mirrors inFlight other) :
    node.stall.Mirrors inFlight other.stall where
  twins := { hmirrors.twins with requested_eq := congrArg (· + 1) hmirrors.twins.requested_eq }
  isFree hsettled :=
    ⟨(hmirrors.isFree hsettled).pending_eq, (hmirrors.isFree hsettled).abandoned_eq⟩
  single := hmirrors.single
  current_eq := hmirrors.current_eq

/-! ## New programs -/

/-- The second text stands for the optimised program of the first, which is not shorter,
or for the same program. -/
inductive Replaces : String → String → Prop where
  | same (text : String) : Replaces text text
  | optimized {text late : String} {compilation optimized : Assembly.Compilation}
      (hcompile : Assembly.compile text = .ok compilation)
      (hlate : Assembly.compile late = .ok optimized)
      (hprogram : optimized.program = compilation.program.optimize)
      (hlength : optimized.program.length = compilation.program.length) : Replaces text late

/-- On nodes that are wired alike, either both texts can be assembled or neither. -/
theorem Replaces.parallels_load {text late : String} (hreplaces : Replaces text late)
    (hports : other.ports = node.ports) :
    (node.load text).program.Parallels (other.load late).program := by
  cases hreplaces with
  | same =>
      have hassemble : other.assemble text = node.assemble text := by
        simp only [assemble, missingPort?, isConnected, hports]
      have hprogram : (other.load text).program = (node.load text).program := by
        simp only [Node.load, program, hassemble]
      rw [hprogram]
      exact .refl _
  | @optimized _ compilation optimized hcompile hlate hprogram hlength =>
      have hparallels : compilation.program.Parallels optimized.program := by
        rw [hprogram] at hlength ⊢
        exact Program.parallels_optimize hlength
      -- the instructions at the same place ask for the same ports
      have hconnected : (∀ instruction ∈ optimized.program, ∀ port ∈ instruction.ports,
            (other.ports port).isSome) ↔
          ∀ instruction ∈ compilation.program, ∀ port ∈ instruction.ports,
            (node.ports port).isSome := by
        rw [← List.forall_mem_map (P := fun ports => ∀ port ∈ ports, (other.ports port).isSome),
          ← List.forall_mem_map (P := fun ports => ∀ port ∈ ports, (node.ports port).isSome),
          hparallels.map_ports_eq, hports]
      rw [node.program_load_of_compile hcompile, other.program_load_of_compile hlate,
        if_congr hconnected rfl rfl]
      split
      · exact hparallels
      · exact .refl []

theorem Mirrors.load (hmirrors : node.Mirrors inFlight other) {text late : String}
    (hreplaces : Replaces text late) : (node.load text).Mirrors inFlight (other.load late) where
  twins := ⟨hmirrors.twins.toAgrees.load text late,
    hreplaces.parallels_load hmirrors.twins.ports_eq⟩
  isFree hsettled := (hmirrors.isFree hsettled).load text
  single := Or.inl rfl
  current_eq port hpending := by cases hpending

end Node

end NodeGrid

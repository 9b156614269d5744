import NodeGrid.Proofs.Node.Soundness

/-!
# Loading a program

A node takes a source text as a whole or not at all.  The text is accepted if it is
compiled and the node carries every instruction of it, that is, all ports of the
instruction are connected; the error for a text that is compiled and not accepted
names the first port that is missed (`missingPort?_eq_some`).

Whatever becomes of the text, the old program leaves nothing behind but the operation
that its task is still engaged in (`IsResetOf`).  A node whose text was not accepted has
no program.  From then on it is dormant: its task may still be resumed, withdrawn or
asked for steps, and all of this leaves it dormant (`IsDormant.later`), so that a step
of it is over at once and changes nothing (`IsDormant.step_eq`).
-/

namespace NodeGrid

open Assembly (CompileError Compilation)

variable {n : ℕ}

/-! ## The ports of an instruction -/

namespace Node

/-- All ports of the instruction are connected. -/
def Carries (node : Node n) (instruction : Instruction) : Prop :=
  ∀ port, instruction.readPort? = some port ∨ instruction.writtenPort? = some port →
    (node.ports port).isSome

/-- The port is the first one of the instruction that is not connected.  A value is read
before it is written. -/
inductive Misses (node : Node n) (instruction : Instruction) (port : Port) : Prop where
  | source (hreads : instruction.readPort? = some port) (hport : node.ports port = none)
  | target (hwrites : instruction.writtenPort? = some port) (hport : node.ports port = none)
      (hsource : ∀ other, instruction.readPort? = some other → (node.ports other).isSome)

/-- The instruction at `index` is the first one of the program that the node does not
carry, and `port` the first port that it misses there. -/
structure FirstMissing (node : Node n) (program : Program) (index : ℕ) (port : Port) : Prop where
  misses : ∃ instruction, program[index]? = some instruction ∧ node.Misses instruction port
  carries_earlier : ∀ earlier < index, ∀ instruction, program[earlier]? = some instruction →
    node.Carries instruction

variable {node : Node n} {instruction : Instruction} {port : Port} {compilation : Compilation}
  {error : CompileError} {source : String}

theorem carries_iff : node.Carries instruction ↔
    ∀ port ∈ instruction.ports, (node.ports port).isSome := by
  simp only [Carries, Instruction.mem_ports_iff]

theorem find?_ports_eq_none :
    (instruction.ports.find? fun port => !node.isConnected port) = none ↔
      node.Carries instruction := by
  simp [carries_iff, isConnected, Option.isSome_iff_ne_none]

theorem misses_of_find?
    (hfind : (instruction.ports.find? fun port => !node.isConnected port) = some port) :
    node.Misses instruction port := by
  have hport : node.ports port = none := by simpa [isConnected] using List.find?_some hfind
  cases instruction with
  | plain operation => cases hfind
  | jump condition target => cases hfind
  | unary operation operand =>
      exact .source (Option.mem_toList.mp (List.mem_of_find?_eq_some hfind)) hport
  | move operand target =>
      rw [Instruction.ports, List.find?_append, Option.or_eq_some_iff] at hfind
      rcases hfind with hsource | ⟨hsource, htarget⟩
      · exact .source (Option.mem_toList.mp (List.mem_of_find?_eq_some hsource)) hport
      · refine .target (Option.mem_toList.mp (List.mem_of_find?_eq_some htarget)) hport ?_
        intro other hread
        have hconnected := List.find?_eq_none.mp hsource other (Option.mem_toList.mpr hread)
        simpa [isConnected, Option.isSome_iff_ne_none] using hconnected

/-- The error for a text with an instruction that the node does not carry. -/
theorem missingPort?_eq_some (hmissing : node.missingPort? compilation = some error) :
    ∃ index port line, node.FirstMissing compilation.program index port ∧
      compilation.lineMap[index]? = some line ∧ error = ⟨line + 1, .unconnectedPort port⟩ := by
  obtain ⟨earlier, ⟨instruction, line⟩, later, hzip, hfound, hearlier⟩ :=
    List.findSome?_eq_some_iff.mp hmissing
  obtain ⟨port, hfind, rfl⟩ := Option.map_eq_some_iff.mp hfound
  have hplaced : (compilation.program.zip compilation.lineMap)[earlier.length]? =
      some (instruction, line) := by
    simp [hzip]
  obtain ⟨hinstruction, hline⟩ := List.getElem?_zip_eq_some.mp hplaced
  refine ⟨earlier.length, port, line, ⟨⟨instruction, hinstruction, misses_of_find? hfind⟩, ?_⟩,
    hline, rfl⟩
  intro index hindex other hother
  -- an instruction further ahead has a line too, and passed the check with it
  obtain ⟨⟨passed, place⟩, hpassed⟩ : ∃ entry, earlier[index]? = some entry :=
    ⟨_, List.getElem?_eq_getElem hindex⟩
  have hboth : (compilation.program.zip compilation.lineMap)[index]? = some (passed, place) := by
    rw [hzip, List.getElem?_append_left hindex, hpassed]
  obtain ⟨hsame, -⟩ := List.getElem?_zip_eq_some.mp hboth
  rw [hother] at hsame
  cases hsame
  exact find?_ports_eq_none.mp
    (Option.map_eq_none_iff.mp (hearlier _ (List.mem_of_getElem? hpassed)))

/-- Why a text is not accepted. -/
theorem assemble_eq_error (hassemble : node.assemble source = .error error) :
    Assembly.compile source = .error error ∨
      ∃ compilation index port line, Assembly.compile source = .ok compilation ∧
        node.FirstMissing compilation.program index port ∧
        compilation.lineMap[index]? = some line ∧ error = ⟨line + 1, .unconnectedPort port⟩ := by
  unfold assemble at hassemble
  cases hcompile : Assembly.compile source with
  | error broken =>
      rw [hcompile] at hassemble
      cases hassemble
      exact Or.inl rfl
  | ok compilation =>
      rw [hcompile, ok_bind] at hassemble
      -- what compiles can still name a port that is not connected
      cases hmissing : node.missingPort? compilation with
      | none => simp [hmissing] at hassemble
      | some broken =>
          simp only [hmissing] at hassemble
          cases hassemble
          obtain ⟨index, port, line, hfirst, hline, herror⟩ := missingPort?_eq_some hmissing
          exact Or.inr ⟨compilation, index, port, line, rfl, hfirst, hline, herror⟩

/-! ## What a load leaves of a node -/

/-- `after` has nothing of the execution of `node` left but the operation that is
outstanding. -/
structure IsResetOf (after node : Node n) : Prop where
  name_eq : after.name = node.name
  ports_eq : after.ports = node.ports
  acc_eq : after.acc = 0
  bak_eq : after.bak = 0
  ip_eq : after.ip = 0
  nextIp_eq : after.nextIp = 0
  status_eq : after.status = .idle
  requested_eq : after.requested = 0
  executed_eq : after.executed = 0
  pending_eq : after.pending = none
  abandoned_of_pending : ∀ operation, node.pending = some operation →
    after.abandoned = some operation
  abandoned_of_none : node.pending = none → after.abandoned = node.abandoned

theorem isResetOf_load (node : Node n) (source : String) : (node.load source).IsResetOf node := by
  constructor
  case abandoned_of_pending =>
    intro operation hpending
    simp [load, reset, hpending]
  case abandoned_of_none =>
    intro hpending
    simp [load, reset, hpending]
  all_goals rfl

/-! ## Nodes without a program -/

/-- The node has no program, and nothing on it has moved since it lost it. -/
structure IsDormant (node : Node n) : Prop where
  compilation_eq : node.compilation = none
  acc_eq : node.acc = 0
  bak_eq : node.bak = 0
  executed_eq : node.executed = 0
  pending_eq : node.pending = none

/-- What may become of a node, in channels in any state, as long as no program is loaded. -/
inductive Later {τ : Type} [DecidableEq τ] (task : τ) (node : Node n) : Node n → Prop where
  | refl : Later task node node
  | step {later after : Node n} {fabric rest : Fabric τ n} {progress : Progress}
      (hlater : Later task node later)
      (hstep : later.step task fabric = .ok (progress, after, rest)) : Later task node after
  | resume {later after : Node n} {fabric rest : Fabric τ n} {progress : Progress}
      (hlater : Later task node later)
      (hresume : later.resume task fabric = .ok (progress, after, rest)) : Later task node after
  | withdraw {later after : Node n} {fabric rest : Fabric τ n} (hlater : Later task node later)
      (hwithdraw : later.withdraw task fabric = .ok (some (after, rest))) : Later task node after
  | stall {later : Node n} (hlater : Later task node later) : Later task node later.stall

namespace IsDormant

variable {τ : Type} {task : τ} {after : Node n} {fabric rest : Fabric τ n} {progress : Progress}

theorem stall (hdormant : node.IsDormant) : node.stall.IsDormant :=
  ⟨hdormant.compilation_eq, hdormant.acc_eq, hdormant.bak_eq, hdormant.executed_eq,
    hdormant.pending_eq⟩

theorem forget (hdormant : node.IsDormant) : IsDormant { node with abandoned := none } :=
  ⟨hdormant.compilation_eq, hdormant.acc_eq, hdormant.bak_eq, hdormant.executed_eq,
    hdormant.pending_eq⟩

/-- A step of a dormant node is over at once: it is counted, and nothing happens. -/
theorem step_eq (hdormant : node.IsDormant) (task : τ) (fabric : Fabric τ n) :
    node.step task fabric = .ok (.settled, node.stall, fabric) := by
  simp [step, Node.stall, program, hdormant.compilation_eq]

theorem resume (hdormant : node.IsDormant)
    (hresume : node.resume task fabric = .ok (progress, after, rest)) : after.IsDormant := by
  rw [Node.resume, hdormant.pending_eq, finishAbandoned] at hresume
  -- a dormant node has nothing to go on with but what it has abandoned
  cases habandoned : node.abandoned with
  | none =>
      simp only [habandoned] at hresume
      cases hresume
      exact hdormant
  | some operation =>
      cases operation with
      | read port =>
          simp only [habandoned] at hresume
          obtain ⟨k, -, hreceive⟩ := bind_eq_ok.mp hresume
          obtain ⟨received, -, hpair⟩ := bind_eq_ok.mp hreceive
          cases hpair
          exact hdormant.forget
      | write port value =>
          simp only [habandoned] at hresume
          obtain ⟨k, -, hpair⟩ := bind_eq_ok.mp hresume
          cases hpair
          exact hdormant.forget

theorem withdraw [DecidableEq τ] (hdormant : node.IsDormant)
    (hwithdraw : node.withdraw task fabric = .ok (some (after, rest))) : after.IsDormant := by
  unfold Node.withdraw at hwithdraw
  cases habandoned : node.abandoned with
  | none =>
      simp only [habandoned] at hwithdraw
      cases hwithdraw
  | some operation =>
      cases operation <;>
      · simp only [habandoned] at hwithdraw
        obtain ⟨k, -, hcancel⟩ := bind_eq_ok.mp hwithdraw
        obtain ⟨next, -, hpair⟩ := Option.map_eq_some_iff.mp (Except.ok.inj hcancel)
        cases hpair
        exact hdormant.forget

/-- Nothing but a new program wakes a dormant node. -/
theorem later [DecidableEq τ] (hdormant : node.IsDormant) (hlater : node.Later task after) :
    after.IsDormant := by
  induction hlater with
  | refl => exact hdormant
  | step _ hstep ih =>
      rw [ih.step_eq] at hstep
      cases hstep
      exact ih.stall
  | resume _ hresume ih => exact ih.resume hresume
  | withdraw _ hwithdraw ih => exact ih.withdraw hwithdraw
  | stall _ ih => exact ih.stall

end IsDormant

theorem isDormant_load (hassemble : node.assemble source = .error error) :
    (node.load source).IsDormant := by
  constructor
  case compilation_eq => simp [load, hassemble, Except.toOption]
  all_goals rfl

/-! ## All or nothing -/

/-- What becomes of a node that is given a source text, and of the text. -/
structure Loads (node : Node n) (source : String) (result : Except CompileError Compilation)
    (after : Node n) : Prop where
  accepted_iff : (∃ compilation, result = .ok compilation) ↔
    ∃ compilation, Assembly.compile source = .ok compilation ∧
      ∀ instruction ∈ compilation.program, node.Carries instruction
  error_eq : ∀ error, result = .error error →
    Assembly.compile source = .error error ∨
      ∃ compilation index port line, Assembly.compile source = .ok compilation ∧
        node.FirstMissing compilation.program index port ∧
        compilation.lineMap[index]? = some line ∧ error = ⟨line + 1, .unconnectedPort port⟩
  source_eq : after.source = source
  reset : after.IsResetOf node
  compilation_of_ok : ∀ compilation, result = .ok compilation →
    Assembly.compile source = .ok compilation ∧ after.compilation = some compilation
  compilation_of_error : ∀ error, result = .error error → after.compilation = none
  /-- Without a program the node never does anything again. -/
  idle_of_error : ∀ error, result = .error error →
    ∀ (τ : Type) [DecidableEq τ] (task : τ) (later : Node n), after.Later task later →
      later.acc = 0 ∧ later.bak = 0 ∧ later.executed = 0 ∧
        ∀ fabric : Fabric τ n,
          later.step task fabric =
            .ok (.settled, { later with requested := later.requested + 1 }, fabric)

/-- A text is loaded completely or not at all, on any node and whatever it is waiting for. -/
theorem loads_assemble (node : Node n) (source : String) :
    node.Loads source (node.assemble source) (node.load source) := by
  constructor
  case accepted_iff => simp only [assemble_eq_ok_iff, carries_iff]
  case error_eq => exact fun error hassemble => assemble_eq_error hassemble
  case source_eq => rfl
  case reset => exact isResetOf_load node source
  case compilation_of_ok =>
    intro compilation hassemble
    refine ⟨(assemble_eq_ok_iff.mp hassemble).1, ?_⟩
    simp [load, hassemble, Except.toOption]
  case compilation_of_error => exact fun error hassemble => (isDormant_load hassemble).compilation_eq
  case idle_of_error =>
    intro error hassemble τ _ task later hlater
    have hdormant := (isDormant_load hassemble).later hlater
    exact ⟨hdormant.acc_eq, hdormant.bak_eq, hdormant.executed_eq, hdormant.step_eq task⟩

end Node

end NodeGrid

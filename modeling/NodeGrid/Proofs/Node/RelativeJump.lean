import NodeGrid.Proofs.Node.Soundness

/-!
# Where relative jumps lead

A relative jump adds the value of its source to its own position.  From below, the sum is
brought back to the first instruction, and from above by its remainder into the program.
But before that it has to be a word, so a sum beyond the largest word counts as this word
(`relativeTarget_eq`).

A jump leads to where the exact sum does as long as this is a word.  Beyond that it does
so only where both leave the same remainder (`jumped_finish`).  It makes no difference
whether the value is there at once or the jump has to wait for it (`jumped_of_jro`).
-/

namespace NodeGrid

/-- The sum of a position and an offset, cut off at both ends. -/
theorem relativeTarget_eq {ip : ℕ} (hip : ip < 2 ^ 63) (offset : Int64) :
    (relativeTarget ip offset : ℤ) = max (min (ip + offset.toInt) (2 ^ 63 - 1)) 0 := by
  have hlargest : Int64.maxValue.toInt = 2 ^ 63 - 1 := rfl
  rw [relativeTarget, Int64.toInt_ofNat_of_lt hip, hlargest]
  omega

variable {τ : Type} {n : ℕ}

/-- The operand has a value at once, which leaves the given fabric. -/
inductive Operand.Supplies (node : Node n) (task : τ) (fabric : Fabric τ n) :
    Operand → Int64 → Fabric τ n → Prop where
  | immediate (value : Int64) : Supplies node task fabric (.immediate value) value fabric
  | acc : Supplies node task fabric (.register .acc) node.acc fabric
  | nil : Supplies node task fabric (.register .nil) 0 fabric
  | port {port : Port} {k : Fin n} {value : Int64} {rest : Fabric τ n}
      (hport : node.ports port = some k)
      (hreceive : fabric.receive k task = .ok (.received value, rest)) :
      Supplies node task fabric (.register (.port port)) value rest

namespace Node

/-- A node with this program has jumped by `value` from the instruction at `ip`. -/
structure Jumped (code : Program) (ip : ℕ) (value : Int64) (after : Node n) : Prop where
  program_eq : after.program = code
  nextIp_eq : (after.nextIp : ℤ) = max (min (ip + value.toInt) (2 ^ 63 - 1)) 0 % code.length
  /-- When the jump leads to where the exact sum does. -/
  exact_iff : (after.nextIp : ℤ) = max (ip + value.toInt) 0 % code.length ↔
    ip + value.toInt < 2 ^ 63 ∨
      (2 ^ 63 - 1) % (code.length : ℤ) = (ip + value.toInt) % code.length
  /-- The next step executes the instruction that the jump leads to. -/
  step_eq : ∀ {τ : Type} (task : τ) (fabric : Fabric τ n),
    after.step task fabric = execute { after.stall with ip := after.nextIp } task fabric

variable {node : Node n} {task : τ} {fabric rest : Fabric τ n} {instruction : Instruction}
  {source : Operand} {port : Port} {k : Fin n} {value : Int64}

/-- A step starts the next instruction. -/
theorem step_of_code (hcode : node.program[node.nextIp]? = some instruction) (task : τ)
    (fabric : Fabric τ n) :
    node.step task fabric = execute { node.stall with ip := node.nextIp } task fabric := by
  have hprogram : node.program.isEmpty = false :=
    List.isEmpty_eq_false_iff_exists_mem.mpr ⟨_, List.mem_of_getElem? hcode⟩
  exact if_neg (Bool.eq_false_iff.mp hprogram)

theorem jumped_finish (hcode : node.program[node.ip]? = some instruction)
    (hlength : node.program.length < 2 ^ 63) (value : Int64) :
    Jumped node.program node.ip value (node.finish (some (relativeTarget node.ip value))) := by
  have hip : node.ip < node.program.length := (List.getElem?_eq_some_iff.mp hcode).1
  have htarget := relativeTarget_eq (hip.trans hlength) value
  have hnext : (node.finish (some (relativeTarget node.ip value))).nextIp =
      relativeTarget node.ip value % node.program.length :=
    if_neg (by simpa using List.ne_nil_of_length_pos (Nat.zero_lt_of_lt hip))
  have hcut : ((node.finish (some (relativeTarget node.ip value))).nextIp : ℤ) =
      max (min (node.ip + value.toInt) (2 ^ 63 - 1)) 0 % node.program.length := by
    rw [hnext, Int.natCast_emod, htarget]
  constructor
  case program_eq => rfl
  case nextIp_eq => exact hcut
  case exact_iff =>
    rw [hcut]
    -- in a word the sum is exact; beyond it the target is the largest word, whose remainder may
    -- differ
    by_cases hword : node.ip + value.toInt < 2 ^ 63
    · rw [min_eq_left (by omega)]
      exact iff_of_true rfl (Or.inl hword)
    · rw [min_eq_right (by omega), max_eq_left (by omega), max_eq_left (by omega)]
      exact (or_iff_right hword).symm
  case step_eq =>
    intro τ task fabric
    have hlt : (node.finish (some (relativeTarget node.ip value))).nextIp < node.program.length := by
      rw [hnext]
      exact Nat.mod_lt _ (Nat.zero_lt_of_lt hip)
    exact step_of_code (List.getElem?_eq_getElem hlt) task fabric

theorem execute_jro (hcode : node.program[node.ip]? = some (.unary .jro source)) (task : τ)
    (fabric : Fabric τ n) : node.execute task fabric = node.read source task fabric := by
  rw [execute, current_eq_ok hcode, ok_bind]

theorem afterRead_jro (hcode : node.program[node.ip]? = some (.unary .jro source)) (value : Int64)
    (task : τ) (fabric : Fabric τ n) :
    node.afterRead value task fabric =
      .ok (.settled, node.finish (some (relativeTarget node.ip value)), fabric) := by
  rw [afterRead, current_eq_ok hcode, ok_bind]

theorem read_of_supplies (hsupplies : source.Supplies node task fabric value rest) :
    node.read source task fabric = node.afterRead value task rest := by
  cases hsupplies with
  | immediate | acc | nil => rfl
  | port hport hreceive =>
      rw [read, channel_eq_ok hport, ok_bind, hreceive, ok_bind]

theorem read_of_blocked (hport : node.ports port = some k)
    (hreceive : fabric.receive k task = .ok (.blocked, rest)) :
    node.read (.register (.port port)) task fabric =
      .ok (.pending, { node with status := .read, pending := some (.read port) }, rest) := by
  rw [read, channel_eq_ok hport, ok_bind, hreceive, ok_bind]

/-- What an operand supplies to a node does not depend on how far the node is. -/
theorem supplies_started (hsupplies : source.Supplies node task fabric value rest) (ip : ℕ) :
    source.Supplies { node.stall with ip } task fabric value rest := by
  cases hsupplies with
  | immediate => exact .immediate value
  | acc => exact .acc
  | nil => exact .nil
  | port hport hreceive => exact .port hport hreceive

/-- A relative jump whose value is there at once. -/
theorem step_jro (hcode : node.program[node.nextIp]? = some (.unary .jro source))
    (hlength : node.program.length < 2 ^ 63)
    (hsupplies : source.Supplies node task fabric value rest) :
    ∃ after, node.step task fabric = .ok (.settled, after, rest) ∧
      Jumped node.program node.nextIp value after := by
  have hstarted : ({ node.stall with ip := node.nextIp } : Node n).program[node.nextIp]? =
      some (.unary .jro source) := hcode
  refine ⟨_, ?_, jumped_finish hstarted hlength value⟩
  rw [step_of_code hcode, execute_jro hstarted, read_of_supplies (supplies_started hsupplies _),
    afterRead_jro hstarted]

/-- A relative jump that has to wait for its value. -/
theorem resume_jro (hcode : node.program[node.ip]? = some (.unary .jro source))
    (hlength : node.program.length < 2 ^ 63) (hpending : node.pending = some (.read port))
    (hport : node.ports port = some k) (hfinish : fabric.finishReceive k = .ok (value, rest)) :
    ∃ after, node.resume task fabric = .ok (.settled, after, rest) ∧
      Jumped node.program node.ip value after := by
  have hwoken : ({ node with pending := none } : Node n).program[node.ip]? =
      some (.unary .jro source) := hcode
  refine ⟨_, ?_, jumped_finish hwoken hlength value⟩
  simp only [resume, hpending, channel_eq_ok hport, ok_bind, hfinish]
  exact afterRead_jro hwoken value task rest

theorem iterate_stall (node : Node n) (stalls : ℕ) :
    stall^[stalls] node = { node with requested := node.requested + stalls } := by
  induction stalls with
  | zero => rfl
  | succ stalls ih =>
      rw [Function.iterate_succ_apply', ih]
      rfl

/-- However its value is delivered, a relative jump leads to the sum of its position and the
value, cut off at the largest word: the value is there at once, or comes in after any number of
cycles that the node waits. -/
theorem jumped_of_jro (hcode : node.program[node.nextIp]? = some (.unary .jro source))
    (hlength : node.program.length < 2 ^ 63) :
    (∀ (task : τ) (fabric : Fabric τ n) (value : Int64) (rest : Fabric τ n),
      source.Supplies node task fabric value rest →
        ∃ after, node.step task fabric = .ok (.settled, after, rest) ∧
          Jumped node.program node.nextIp value after) ∧
    ∀ (port : Port) (k : Fin n) (task : τ) (fabric rest : Fabric τ n),
      source = .register (.port port) → node.ports port = some k →
        fabric.receive k task = .ok (.blocked, rest) →
        ∃ waiting, node.step task fabric = .ok (.pending, waiting, rest) ∧
          ∀ (stalls : ℕ) (later : Fabric τ n) (value : Int64) (last : Fabric τ n),
            later.finishReceive k = .ok (value, last) →
              ∃ after, (stall^[stalls] waiting).resume task later = .ok (.settled, after, last) ∧
                Jumped node.program node.nextIp value after := by
  constructor
  · intro task fabric value rest hsupplies
    exact step_jro hcode hlength hsupplies
  · rintro port k task fabric rest rfl hport hreceive
    have hstarted : ({ node.stall with ip := node.nextIp } : Node n).program[node.nextIp]? =
        some (.unary .jro (.register (.port port))) := hcode
    refine ⟨{ node.stall with
      ip := node.nextIp, status := .read, pending := some (.read port) }, ?_, ?_⟩
    · rw [step_of_code hcode, execute_jro hstarted]
      exact read_of_blocked hport hreceive
    · -- cycles of waiting change only their own counter
      intro stalls later value last hfinish
      rw [iterate_stall]
      exact resume_jro hstarted hlength rfl hport hfinish

/-- A node about to jump back or forth by what it reads from its left. -/
def leaper : Node 1 :=
  { inert "LEAPER" (fun _ => some ⟨0, Nat.one_pos⟩) with
    compilation := some ⟨[.plain .nop, .unary .jro (.register (.port .left))], [0, 1]⟩
    nextIp := 1 }

/-- A channel with one slot, which holds the given value. -/
def holding (value : Int64) : Fabric (Fin 2) 1 :=
  ⟨#v[⟨1, ⟨0, []⟩, ⟨1, []⟩, [value], some value⟩], []⟩

/-- The leaper gets the value 5, at once or after it has waited for two cycles, and goes on with
its first instruction. -/
theorem jumped_leaper :
    leaper.program[leaper.nextIp]? = some (.unary .jro (.register (.port .left))) ∧
      leaper.program.length < 2 ^ 63 ∧
      (∃ fabric rest after, fabric.receive 0 (0 : Fin 2) = .ok (.received 5, rest) ∧
        leaper.step 0 fabric = .ok (.settled, after, rest) ∧
        Jumped leaper.program leaper.nextIp 5 after ∧ after.nextIp = 0) ∧
      ∃ fabric rest waiting later last after, fabric.receive 0 (0 : Fin 2) = .ok (.blocked, rest) ∧
        leaper.step 0 fabric = .ok (.pending, waiting, rest) ∧
        later.finishReceive 0 = .ok (5, last) ∧
        (stall^[2] waiting).resume (0 : Fin 2) later = .ok (.settled, after, last) ∧
        Jumped leaper.program leaper.nextIp 5 after ∧ after.nextIp = 0 := by
  have hcode : leaper.program[leaper.nextIp]? = some (.unary .jro (.register (.port .left))) := rfl
  have hlength : leaper.program.length < 2 ^ 63 := by decide
  -- the sum leads around the program, to its first instruction
  have hland : ∀ after : Node 1, Jumped leaper.program leaper.nextIp 5 after → after.nextIp = 0 := by
    intro after hjumped
    have hsum : max (min ((leaper.nextIp : ℤ) + Int64.toInt 5) (2 ^ 63 - 1)) 0 %
        leaper.program.length = 0 := by decide
    exact Int.natCast_eq_zero.mp (hjumped.nextIp_eq.trans hsum)
  obtain ⟨hnow, hlater⟩ := jumped_of_jro (τ := Fin 2) hcode hlength
  have hfilled : (holding 5).receive 0 0 = .ok (.received 5, _) := rfl
  obtain ⟨after, hstep, hjumped⟩ := hnow 0 _ 5 _ (.port rfl hfilled)
  have hempty : (⟨#v[.ofCapacity 1], []⟩ : Fabric (Fin 2) 1).receive 0 0 = .ok (.blocked, _) := rfl
  obtain ⟨waiting, hwait, hresume⟩ := hlater .left 0 0 _ _ rfl rfl hempty
  have hfinish : (holding 5).finishReceive 0 = .ok (5, _) := rfl
  obtain ⟨late, hwoken, hlate⟩ := hresume 2 _ 5 _ hfinish
  exact ⟨hcode, hlength, ⟨_, _, after, hfilled, hstep, hjumped, hland after hjumped⟩,
    _, _, waiting, _, _, late, hempty, hwait, hfinish, hwoken, hlate, hland late hlate⟩

/-- Beyond the largest word, a jump need not lead to where the exact sum does. -/
theorem not_forall_jump_exact :
    ¬ ∀ (node after : Node 0) (value : Int64) (fabric rest : Fabric (Fin 1) 0),
      node.program[node.nextIp]? = some (.unary .jro (.immediate value)) →
      node.step 0 fabric = .ok (.settled, after, rest) →
      (after.nextIp : ℤ) = max (node.nextIp + value.toInt) 0 % node.program.length := by
  intro hall
  have hexact := hall
    { inert "FAR" (fun _ => none) with
      compilation := some ⟨[.plain .nop, .unary .jro (.immediate Int64.maxValue)], [0, 1]⟩
      nextIp := 1 } _ Int64.maxValue (Fabric.ofCapacities #v[]) _ rfl rfl
  revert hexact
  decide

end Node

end NodeGrid

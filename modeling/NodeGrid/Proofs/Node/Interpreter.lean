import NodeGrid.Proofs.Node.History
import Mathlib.Data.Int.Notation

/-!
# A sequential interpreter

What a program means, without channels, suspension or scheduling.  The interpreter
has the accumulator, the backup register and the index of the next instruction, and
takes the values that come in from a list.  It executes one instruction after the
other; one that reads a port when no value is left is not executed (`step`).

The arithmetic is that of the integers, brought back to words at the end: sums,
differences and negations wrap around (`wrap`), and the target of a relative jump
stays at the end of the range (`jumpIndex`).
-/

namespace NodeGrid

/-! ## Words -/

/-- The word that an integer wraps around to. -/
def wrap (number : ℤ) : Int64 := Int64.ofInt number

/-- The integer, or the nearest one that is a word. -/
def saturate (number : ℤ) : ℤ := max Int64.minValue.toInt (min number Int64.maxValue.toInt)

/-- The index that a jump by `offset` from `ip` leads to, and never one before the first
instruction. -/
def jumpIndex (ip : ℕ) (offset : Int64) : ℕ :=
  (max (saturate ((Int64.ofNat ip).toInt + offset.toInt)) 0).toNat

/-- Whether a jump is taken with the given accumulator. -/
def Condition.taken : Condition → ℤ → Bool
  | .always, _ => true
  | .zero, acc => acc = 0
  | .nonzero, acc => acc ≠ 0
  | .positive, acc => acc > 0
  | .negative, acc => acc < 0

theorem wrap_add (first second : Int64) : wrap (first.toInt + second.toInt) = first + second := by
  rw [wrap, Int64.ofInt_add, Int64.ofInt_toInt, Int64.ofInt_toInt]

theorem wrap_sub (first second : Int64) : wrap (first.toInt - second.toInt) = first - second := by
  rw [wrap, Int64.ofInt_sub, Int64.ofInt_toInt, Int64.ofInt_toInt]

theorem wrap_neg (value : Int64) : wrap (-value.toInt) = -value := by
  rw [wrap, Int64.ofInt_neg, Int64.ofInt_toInt]

theorem jumpIndex_eq (ip : ℕ) (offset : Int64) : jumpIndex ip offset = relativeTarget ip offset := by
  have hleast : Int64.minValue.toInt ≤ 0 := by decide
  unfold jumpIndex relativeTarget saturate
  omega

theorem Condition.taken_eq (condition : Condition) (acc : Int64) :
    condition.taken acc.toInt = condition.holds acc := by
  have hzero : acc.toInt = 0 ↔ acc = 0 := by
    rw [← Int64.toInt_inj]
    rfl
  cases condition with
  | always => rfl
  | zero => simp [taken, holds, hzero, beq_eq_decide]
  | nonzero => simp [taken, holds, hzero, bne, beq_eq_decide]
  | positive => simp [taken, holds, Int64.lt_iff_toInt_lt]
  | negative => simp [taken, holds, Int64.lt_iff_toInt_lt]

/-! ## The interpreter -/

/-- The state of the interpreter. -/
structure Interpreter where
  acc : Int64
  bak : Int64
  /-- The instruction to execute next. -/
  ip : ℕ
  /-- The values that are still to come in. -/
  inbox : List Int64
  /-- What has been read and written at the ports. -/
  events : List PortEvent
deriving DecidableEq

namespace Interpreter

/-- The interpreter before its first instruction. -/
def start (inbox : List Int64) : Interpreter := ⟨0, 0, 0, inbox, []⟩

/-- The value of an operand; none if it has not come in. -/
def fetch (interpreter : Interpreter) : Operand → Option (Int64 × Interpreter)
  | .immediate value => some (value, interpreter)
  | .register .acc => some (interpreter.acc, interpreter)
  | .register .nil => some (0, interpreter)
  | .register (.port port) =>
    match interpreter.inbox with
    | [] => none
    | value :: rest =>
      some (value,
        { interpreter with inbox := rest, events := interpreter.events ++ [.read port value] })

/-- What becomes of a value that is stored in a register. -/
def store (interpreter : Interpreter) (value : Int64) : Register → Interpreter
  | .acc => { interpreter with acc := value }
  | .nil => interpreter
  | .port port => { interpreter with events := interpreter.events ++ [.write port value] }

/-- Goes on at `target`, or else behind the instruction.  Behind the last one comes the
first. -/
def goto (interpreter : Interpreter) (length : ℕ) (target : Option ℕ) : Interpreter :=
  { interpreter with ip := target.getD (interpreter.ip + 1) % length }

/-- Executes an instruction of a program of the given length. -/
def execute (interpreter : Interpreter) (length : ℕ) : Instruction → Option Interpreter
  | .plain .nop => some (interpreter.goto length none)
  | .plain .neg =>
    some (goto { interpreter with acc := wrap (-interpreter.acc.toInt) } length none)
  | .plain .sav => some (goto { interpreter with bak := interpreter.acc } length none)
  | .plain .swp =>
    some (goto { interpreter with acc := interpreter.bak, bak := interpreter.acc } length none)
  | .unary operation source => do
    let (value, fetched) ← interpreter.fetch source
    match operation with
    | .add => some (goto { fetched with acc := wrap (fetched.acc.toInt + value.toInt) } length none)
    | .sub => some (goto { fetched with acc := wrap (fetched.acc.toInt - value.toInt) } length none)
    | .jro => some (fetched.goto length (some (jumpIndex fetched.ip value)))
  | .move source target => do
    let (value, fetched) ← interpreter.fetch source
    some ((fetched.store value target).goto length none)
  | .jump condition target =>
    some (interpreter.goto length
      (if condition.taken interpreter.acc.toInt then some target else none))

/-- Executes the next instruction. -/
def step (code : Program) (interpreter : Interpreter) : Option Interpreter := do
  interpreter.execute code.length (← code[interpreter.ip]?)

/-- Executes the given number of instructions. -/
def run (code : Program) (interpreter : Interpreter) : ℕ → Option Interpreter
  | 0 => some interpreter
  | steps + 1 => do (← interpreter.run code steps).step code

/-- Adds values to those that are still to come in. -/
def supply (interpreter : Interpreter) (more : List Int64) : Interpreter :=
  { interpreter with inbox := interpreter.inbox ++ more }

variable {code : Program} {interpreter next : Interpreter} {steps : ℕ}

theorem step_of_getElem? {instruction : Instruction}
    (hcurrent : code[interpreter.ip]? = some instruction) :
    interpreter.step code = interpreter.execute code.length instruction := by
  simp [step, hcurrent]

/-- Reading an operand leaves the registers as they are. -/
theorem registers_of_fetch {source : Operand} {value : Int64}
    (hfetch : interpreter.fetch source = some (value, next)) :
    next.acc = interpreter.acc ∧ next.bak = interpreter.bak ∧ next.ip = interpreter.ip := by
  unfold fetch at hfetch
  split at hfetch
  · cases hfetch
    exact ⟨rfl, rfl, rfl⟩
  · cases hfetch
    exact ⟨rfl, rfl, rfl⟩
  · cases hfetch
    exact ⟨rfl, rfl, rfl⟩
  · split at hfetch
    · cases hfetch
    · cases hfetch
      exact ⟨rfl, rfl, rfl⟩

/-- A value that is read at a port is the first of those that are to come in. -/
theorem exists_of_fetch {port : Port} {value : Int64}
    (hfetch : interpreter.fetch (.register (.port port)) = some (value, next)) :
    ∃ rest, interpreter.inbox = value :: rest ∧ next =
      { interpreter with inbox := rest, events := interpreter.events ++ [.read port value] } := by
  unfold fetch at hfetch
  cases hinbox : interpreter.inbox with
  | nil => simp [hinbox] at hfetch
  | cons first rest =>
      simp only [hinbox] at hfetch
      cases hfetch
      exact ⟨rest, rfl, rfl⟩

/-! ## More values -/

theorem fetch_supply {source : Operand} {value : Int64} (more : List Int64)
    (hfetch : interpreter.fetch source = some (value, next)) :
    (interpreter.supply more).fetch source = some (value, next.supply more) := by
  cases source with
  | immediate value =>
      cases hfetch
      rfl
  | register register =>
      cases register with
      | acc =>
          cases hfetch
          rfl
      | nil =>
          cases hfetch
          rfl
      | port port =>
          -- only a port takes from the supply, and takes from its front
          cases hinbox : interpreter.inbox with
          | nil => simp [fetch, hinbox] at hfetch
          | cons first rest =>
              simp only [fetch, hinbox] at hfetch
              cases hfetch
              simp [fetch, supply, hinbox]

theorem store_supply (interpreter : Interpreter) (more : List Int64) (value : Int64)
    (target : Register) :
    (interpreter.supply more).store value target = (interpreter.store value target).supply more := by
  cases target <;> rfl

theorem execute_supply {length : ℕ} {instruction : Instruction} (more : List Int64)
    (hexecute : interpreter.execute length instruction = some next) :
    (interpreter.supply more).execute length instruction = some (next.supply more) := by
  cases instruction with
  | plain operation =>
      cases operation <;> cases hexecute <;> rfl
  | jump condition target =>
      cases hexecute
      rfl
  | unary operation source =>
      -- the value comes first, and what is done with it does not need the supply
      obtain ⟨⟨value, fetched⟩, hfetch, hused⟩ := Option.bind_eq_some_iff.mp hexecute
      refine Option.bind_eq_some_iff.mpr ⟨_, fetch_supply more hfetch, ?_⟩
      cases operation <;> cases hused <;> rfl
  | move source target =>
      obtain ⟨⟨value, fetched⟩, hfetch, hstored⟩ := Option.bind_eq_some_iff.mp hexecute
      refine Option.bind_eq_some_iff.mpr ⟨_, fetch_supply more hfetch, ?_⟩
      cases hstored
      simp only [store_supply]
      rfl

theorem step_supply (more : List Int64) (hstep : interpreter.step code = some next) :
    (interpreter.supply more).step code = some (next.supply more) := by
  obtain ⟨instruction, hcurrent, hexecute⟩ := Option.bind_eq_some_iff.mp hstep
  exact Option.bind_eq_some_iff.mpr ⟨instruction, hcurrent, execute_supply more hexecute⟩

/-- What the interpreter has done does not depend on the values that come in later. -/
theorem run_supply (more : List Int64) (hrun : interpreter.run code steps = some next) :
    (interpreter.supply more).run code steps = some (next.supply more) := by
  induction steps generalizing next with
  | zero =>
      cases hrun
      rfl
  | succ steps ih =>
      obtain ⟨last, hlast, hstep⟩ := Option.bind_eq_some_iff.mp hrun
      exact Option.bind_eq_some_iff.mpr ⟨_, ih hlast, step_supply more hstep⟩

end Interpreter

end NodeGrid

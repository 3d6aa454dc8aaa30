import Mathlib.Algebra.Group.Int.Defs
import StackMachine.Proofs.Machine.Budget

/-!
# Runs over unbounded integers

The same machine over integers that never wrap. Reducing every entry of its stack to the word with
the same low bits leads back to the machine over words, as long as no instruction looks at more than
the ring structure: sums, differences, products and negations may be reduced late. An order, a
quotient, an absolute value or a test for zero may not.
-/

namespace StackMachine

set_option autoImplicit false

/-- The opcodes whose effect respects the residue of every entry. -/
def Opcode.inRing : Opcode → Bool
  | .halt | .pushConst | .loadInput | .jump | .stack _ => true
  | .binary op => op = .add ∨ op = .sub ∨ op = .mul
  | .unary op => op = .neg
  | .branch _ => false

namespace Unbounded

structure Config where
  pc : Nat
  stack : List Int
  steps : Nat
deriving DecidableEq, Repr

structure Result where
  status : Status
  value : Int
deriving DecidableEq, Repr

structure Stop where
  config : Config
  result : Result
deriving DecidableEq, Repr

inductive Transition where
  | next (config : Config)
  | done (stop : Stop)
deriving DecidableEq, Repr

def Result.fault (status : Status) : Result := ⟨status, 0⟩

def Result.halt : List Int → Result
  | [] => .fault .emptyStackOnHalt
  | top :: _ => ⟨.ok, top⟩

def flag (condition : Bool) : Int := if condition then 1 else 0

def eval? (op : BinaryOp) (left right : Int) : Option Int :=
  match op with
  | .add => some (left + right)
  | .sub => some (left - right)
  | .mul => some (left * right)
  | .div => if right = 0 then none else some (left.tdiv right)
  | .mod => if right = 0 then none else some (left.tmod right)
  | .eq => some (flag (left = right))
  | .gt => some (flag (left > right))
  | .lt => some (flag (left < right))

def eval (op : UnaryOp) (value : Int) : Int :=
  match op with
  | .neg => -value
  | .abs => value.natAbs
  | .isZero => flag (value = 0)

def holds (condition : Condition) (value : Int) : Bool :=
  match condition with
  | .ifZero => value = 0
  | .ifNonzero => value ≠ 0

namespace Config

def start : Config := ⟨0, [], 0⟩

def finish (config : Config) (result : Result) : Transition := .done ⟨config, result⟩

def advance (config : Config) (stack : List Int) : Transition :=
  .next { config with pc := config.pc + 1, stack := stack }

end Config

def takeJump (program : Program) (target : Word) (config : Config) (stack : List Int) :
    Transition :=
  match program.jumpMode.resolve? program.length target with
  | some position => .next { config with pc := position, stack := stack }
  | none => config.finish (.fault .badJumpTarget)

/-- Constants and inputs are words, and so are targets and indexes; what is made of them on the stack
is not. -/
def execute (program : Program) (inputs : List Word) (instr : Instr) (config : Config) :
    Transition :=
  match instr, config.stack with
  | .halt, stack => config.finish (.halt stack)
  | .pushConst value, stack => config.advance (value.toInt :: stack)
  | .loadInput index, stack =>
      match program.inputMode.fetch? inputs index with
      | some value => config.advance (value.toInt :: stack)
      | none => config.finish (.fault .invalidInputIndex)
  | .binary op, right :: left :: stack =>
      match eval? op left right with
      | some value => config.advance (value :: stack)
      | none => config.finish (.fault .divOrModByZero)
  | .unary op, value :: stack => config.advance (eval op value :: stack)
  | .stack .dup, value :: stack => config.advance (value :: value :: stack)
  | .stack .swap, upper :: lower :: stack => config.advance (lower :: upper :: stack)
  | .stack .pop, _ :: stack => config.advance stack
  | .jump target, stack => takeJump program target config stack
  | .branch condition target, value :: stack =>
      if holds condition value then takeJump program target config stack
      else config.advance stack
  | _, _ => config.finish (.fault .stackUnderflow)

def step (program : Program) (inputs : List Word) (config : Config) : Transition :=
  match program.code[config.pc]? with
  | none => config.finish (.halt config.stack)
  | some instr => execute program inputs instr { config with steps := config.steps + 1 }

def stopFrom (program : Program) (inputs : List Word) : Nat → Config → Stop
  | 0, config => ⟨config, .fault .stepLimit⟩
  | remaining + 1, config =>
      match step program inputs config with
      | .next config => stopFrom program inputs remaining config
      | .done stop => stop

def stop (program : Program) (inputs : List Word) : Stop :=
  stopFrom program inputs program.budget .start

def Config.wrapped (config : Config) : StackMachine.Config :=
  ⟨config.pc, config.stack.map Int64.ofInt, config.steps⟩

def Result.wrapped (result : Result) : StackMachine.Result :=
  ⟨result.status, Int64.ofInt result.value⟩

def Stop.wrapped (stop : Stop) : StackMachine.Stop := ⟨stop.config.wrapped, stop.result.wrapped⟩

def Transition.wrapped : Transition → StackMachine.Transition
  | .next config => .next config.wrapped
  | .done stop => .done stop.wrapped

theorem halt_wrapped (config : Config) :
    config.wrapped.finish (.halt config.wrapped.stack) =
      (config.finish (.halt config.stack)).wrapped := by
  obtain ⟨pc, stack, steps⟩ := config
  cases stack <;> rfl

variable {program : Program} {inputs : List Word}

theorem take_jump_wrapped (target : Word) (config : Config) (stack : List Int) :
    program.takeJump target config.wrapped (stack.map Int64.ofInt) =
      (takeJump program target config stack).wrapped := by
  rw [takeJump, Program.takeJump]
  cases program.jumpMode.resolve? program.length target <;> rfl

theorem eval_binary_wrapped (op : BinaryOp) (ring : (Opcode.binary op).inRing = true)
    (left right : Int) :
    op.eval? (Int64.ofInt left) (Int64.ofInt right) =
      (eval? op left right).map Int64.ofInt := by
  cases op with
  | add => simp [BinaryOp.eval?, eval?, Word.add, Int64.ofInt_add]
  | sub => simp [BinaryOp.eval?, eval?, Word.sub, Int64.ofInt_sub]
  | mul => simp [BinaryOp.eval?, eval?, Word.mul, Int64.ofInt_mul]
  | div | mod | eq | gt | lt => cases ring

theorem eval_unary_wrapped (op : UnaryOp) (ring : (Opcode.unary op).inRing = true) (value : Int) :
    op.eval (Int64.ofInt value) = Int64.ofInt (eval op value) := by
  cases op with
  | neg => exact (Int64.ofInt_neg value).symm
  | abs | isZero => cases ring

theorem advance_wrapped (config : Config) (stack : List Int) :
    config.wrapped.advance (stack.map Int64.ofInt) = (config.advance stack).wrapped := rfl

theorem push_wrapped (config : Config) (value : Word) :
    config.wrapped.advance (value :: config.wrapped.stack) =
      (config.advance (value.toInt :: config.stack)).wrapped := by
  rw [← advance_wrapped, List.map_cons, Int64.ofInt_toInt]
  rfl

theorem execute_load (index : Word) (config : Config) :
    execute program inputs (.loadInput index) config =
      match program.inputMode.fetch? inputs index with
      | some value => config.advance (value.toInt :: config.stack)
      | none => config.finish (.fault .invalidInputIndex) := by
  unfold execute
  cases fetched : program.inputMode.fetch? inputs index <;> simp only [fetched]

theorem execute_binary (op : BinaryOp) {config : Config} {right left : Int} {stack : List Int}
    (shape : config.stack = right :: left :: stack) :
    execute program inputs (.binary op) config =
      match eval? op left right with
      | some value => config.advance (value :: stack)
      | none => config.finish (.fault .divOrModByZero) := by
  unfold execute
  cases evaluated : eval? op left right <;> simp only [shape, evaluated]

/-- One case for each instruction. A branch is not among them, since the residue of a number does not
say whether it is zero. -/
theorem execute_wrapped (instr : Instr) (ring : instr.opcode.inRing = true) (config : Config) :
    program.execute inputs instr config.wrapped =
      (execute program inputs instr config).wrapped := by
  obtain ⟨pc, stack, steps⟩ := config
  cases instr with
  | halt => exact halt_wrapped ⟨pc, stack, steps⟩
  | pushConst value => exact push_wrapped ⟨pc, stack, steps⟩ value
  | loadInput index =>
      rw [Program.execute_load, execute_load]
      cases program.inputMode.fetch? inputs index with
      | none => rfl
      | some value => exact push_wrapped ⟨pc, stack, steps⟩ value
  | binary op =>
      rcases stack with _ | ⟨right, _ | ⟨left, stack⟩⟩
      · rfl
      · rfl
      · rw [Program.execute_binary op rfl, execute_binary op rfl, eval_binary_wrapped op ring]
        cases eval? op left right <;> rfl
  | unary op =>
      cases stack with
      | nil => rfl
      | cons value stack =>
          rw [Program.execute_unary op rfl, eval_unary_wrapped op ring]
          rfl
  | stack op => rcases stack with _ | ⟨upper, _ | ⟨lower, stack⟩⟩ <;> cases op <;> rfl
  | jump target => exact take_jump_wrapped target _ stack
  | branch condition target => cases ring

theorem step_wrapped (ring : ∀ instr ∈ program.code, instr.opcode.inRing = true)
    (config : Config) :
    program.step inputs config.wrapped = (step program inputs config).wrapped := by
  have same : config.wrapped.pc = config.pc := rfl
  rw [step, Program.step, same]
  cases found : program.code[config.pc]? with
  | none => exact halt_wrapped config
  | some instr =>
      have among : instr ∈ program.code := List.mem_of_getElem? found
      exact execute_wrapped instr (ring instr among) { config with steps := config.steps + 1 }

/-- By induction on the steps that are left. Between two steps the machine over words is in the
reduced configuration of the machine over integers. -/
theorem stop_from_wrapped (ring : ∀ instr ∈ program.code, instr.opcode.inRing = true)
    (remaining : Nat) (config : Config) :
    program.stopFrom inputs remaining config.wrapped =
      (stopFrom program inputs remaining config).wrapped := by
  induction remaining generalizing config with
  | zero => rfl
  | succ remaining ih =>
      have stepped : program.step inputs config.wrapped = (step program inputs config).wrapped :=
        step_wrapped ring config
      rw [stopFrom]
      cases exact : step program inputs config with
      | next after =>
          rw [exact] at stepped
          rw [Program.stop_from_next stepped]
          exact ih after
      | done stop =>
          rw [exact] at stepped
          exact Program.stop_from_done stepped remaining

/-- Late reduction is sound for programs of ring instructions. The machine over integers ends in the
same way, after as many steps and at the same position, and with the integer whose residue is the
answer of the machine over words. -/
theorem late_reduction_sound (program : Program) (inputs : List Word)
    (ring : ∀ instr ∈ program.code, instr.opcode.inRing = true) :
    (program.run inputs).result.status = (stop program inputs).result.status ∧
      (program.run inputs).steps = (stop program inputs).config.steps ∧
      (program.run inputs).finalPc = (stop program inputs).config.pc ∧
      ((stop program inputs).result.status = .ok →
        (program.run inputs).result.value.toInt =
          (stop program inputs).result.value.bmod (2 ^ 64)) := by
  have reduced : program.run inputs = (stop program inputs).wrapped.run :=
    congrArg StackMachine.Stop.run (stop_from_wrapped ring program.budget .start)
  rw [reduced]
  exact ⟨rfl, rfl, rfl, fun _ => Int64.toInt_ofInt⟩

/-- Raises the first input to the fourth power, and jumps over a negation. -/
def fourthPower : Program where
  code := [.loadInput 0, .stack .dup, .binary .mul, .stack .dup, .binary .mul, .jump 7, .unary .neg,
    .halt]
  maxSteps := 10
  jumpMode := .error
  inputMode := .direct
  halts := by decide
  positive := by decide

/-- The fourth power of `2 ^ 40 + 1` needs 161 bits. -/
theorem late_reduction_sound_fourth_power :
    (∀ instr ∈ fourthPower.code, instr.opcode.inRing = true) ∧
      (stop fourthPower [1099511627777]).result = ⟨.ok, (2 ^ 40 + 1) ^ 4⟩ ∧
      (fourthPower.run [1099511627777]).result.status = .ok ∧
      (fourthPower.run [1099511627777]).steps = 7 ∧
      (fourthPower.run [1099511627777]).finalPc = 7 ∧
      (fourthPower.run [1099511627777]).result.value.toInt = 2 ^ 42 + 1 := by
  have ring : ∀ instr ∈ fourthPower.code, instr.opcode.inRing = true := by decide
  have exact : stop fourthPower [1099511627777] =
      ⟨⟨7, [(2 ^ 40 + 1) ^ 4], 7⟩, .ok, (2 ^ 40 + 1) ^ 4⟩ := by decide
  obtain ⟨status, steps, finalPc, value⟩ := late_reduction_sound fourthPower [1099511627777] ring
  rw [exact] at status steps finalPc value
  refine ⟨ring, congrArg Stop.result exact, status, steps, finalPc, ?_⟩
  rw [value rfl]
  decide

def squareIsZero : Program where
  code := [.loadInput 0, .stack .dup, .binary .mul, .unary .isZero, .halt]
  maxSteps := 6
  jumpMode := .error
  inputMode := .direct
  halts := by decide
  positive := by decide

/-- A test for zero has to see the reduced number. -/
example : (stop squareIsZero [4294967296]).result.value = 0 ∧
    (squareIsZero.run [4294967296]).result.value = 1 := by decide

end Unbounded

end StackMachine

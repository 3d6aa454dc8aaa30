import StackMachine.Proofs.Machine.Step

/-!
# The machine on unchecked memory

An engine that keeps its stack as a row with the top at the end, counts positions in signed
integers and checks nothing but what its loop checks: whether the budget is spent, whether the
position is past the code, whether the stack is as deep as the table of depths asks, and whether a
divisor is zero. Every operation that has no value everywhere may be undefined here. From the start
on none is, the position and the depth of the stack stay within their bounds, and the engine ends as
the machine does.
-/

namespace StackMachine

set_option autoImplicit false

namespace Engine

/-- The top of the stack is its last entry. -/
structure State where
  stack : List Word
  pc : Int
  steps : Nat
deriving DecidableEq, Repr

/-- What an instruction leaves behind. Without a result the run goes on. -/
structure Outcome where
  state : State
  result : Option Result
deriving DecidableEq, Repr

/-- The item at an index; undefined outside the row. -/
def at? {α : Type} (items : List α) (index : Int) : Option α :=
  if index < 0 then none else items[index.toNat]?

/-- Division as the hardware has it; undefined for a zero divisor and where the quotient does not
fit a word. -/
def quotient? (left right : Word) : Option Word :=
  if right = 0 ∨ (left = Int64.minValue ∧ right = -1) then none else some (left / right)

def remainder? (left right : Word) : Option Word :=
  if right = 0 ∨ (left = Int64.minValue ∧ right = -1) then none else some (left % right)

def div? (left right : Word) : Option Word :=
  if right = -1 then some (Word.neg left) else quotient? left right

def rem? (left right : Word) : Option Word :=
  if right = -1 then some 0 else remainder? left right

/-- The remainder in `[0, modulus)`, made from the one that takes the sign of the dividend;
undefined unless the modulus is positive. -/
def floorMod? (value modulus : Int) : Option Int :=
  if modulus ≤ 0 then none
  else
    let remainder := value.tmod modulus
    some (if remainder < 0 then remainder + modulus else remainder)

/-- The operand of an instruction that is taken to have this opcode; undefined for any other. -/
def operand? (instr : Instr) (opcode : Opcode) : Option Word :=
  if instr.opcode = opcode then instr.operand? else none

def result? (op : BinaryOp) (left right : Word) : Option Word :=
  match op with
  | .add => some (Word.add left right)
  | .sub => some (Word.sub left right)
  | .mul => some (Word.mul left right)
  | .div => div? left right
  | .mod => rem? left right
  | .eq => some (Word.ofBool (left == right))
  | .gt => some (Word.ofBool (left > right))
  | .lt => some (Word.ofBool (left < right))

/-- A defined answer may still be that the target has no position. -/
def resolveJump? (mode : JumpMode) (length target : Int) : Option (Option Int) :=
  if length ≤ 0 then some none
  else if 0 ≤ target ∧ target < length then some (some target)
  else
    match mode with
    | .error => some none
    | .clamp => some (some (if target < 0 then 0 else length - 1))
    | .wrap => (floorMod? target length).map some

def resolveInput? (mode : InputMode) (count index : Int) : Option (Option Int) :=
  match mode with
  | .direct => some (if index < 0 ∨ count ≤ index then none else some index)
  | .cyclic => if count = 0 then some none else (floorMod? index count).map some

namespace State

def start : State := ⟨[], 0, 0⟩

def push (state : State) (value : Word) : State := { state with stack := state.stack ++ [value] }

/-- Takes the top off; undefined on an empty stack. -/
def pop? (state : State) : Option (Word × State) :=
  state.stack.getLast?.map fun top => (top, { state with stack := state.stack.dropLast })

/-- Exchanges the entries at the two last indices; undefined if one of them is no index. -/
def exchange? (state : State) : Option State := do
  let size : Int := state.stack.length
  let upper ← at? state.stack (size - 1)
  let lower ← at? state.stack (size - 2)
  return { state with
    stack := (state.stack.set (size - 1).toNat lower).set (size - 2).toNat upper }

def advance (state : State) : State := { state with pc := state.pc + 1 }

def halt? (state : State) : Option Result :=
  if state.stack = [] then some (.fault .emptyStackOnHalt)
  else state.stack.getLast?.map fun top => ⟨.ok, top⟩

def ended (state : State) (result : Result) : Run := ⟨result, state.steps, state.pc.toNat⟩

end State

def goesOn (state : State) : Option Outcome := some ⟨state, none⟩

def stops (state : State) (result : Result) : Option Outcome := some ⟨state, some result⟩

def takeJump? (program : Program) (target : Word) (state : State) : Option Outcome := do
  match ← resolveJump? program.jumpMode program.length target.toInt with
  | some position => goesOn { state with pc := position }
  | none => stops state (.fault .badJumpTarget)

/-- The depth of the stack is looked up once, and after that no pop is checked. -/
def execute? (program : Program) (inputs : List Word) (instr : Instr) (state : State) :
    Option Outcome :=
  if state.stack.length < instr.opcode.requiredDepth then stops state (.fault .stackUnderflow)
  else
    match instr.opcode with
    | .halt => do stops state (← state.halt?)
    | .pushConst => do
        let value ← operand? instr .pushConst
        goesOn (state.push value).advance
    | .loadInput => do
        let index ← operand? instr .loadInput
        match ← resolveInput? program.inputMode inputs.length index.toInt with
        | none => stops state (.fault .invalidInputIndex)
        | some position => do
            let value ← at? inputs position
            goesOn (state.push value).advance
    | .binary op => do
        let (right, state) ← state.pop?
        let (left, state) ← state.pop?
        if (op = .div ∨ op = .mod) ∧ right = 0 then stops state (.fault .divOrModByZero)
        else do
          let value ← result? op left right
          goesOn (state.push value).advance
    | .unary op => do
        let (value, state) ← state.pop?
        goesOn (state.push (op.eval value)).advance
    | .stack .dup => do
        let top ← state.stack.getLast?
        goesOn (state.push top).advance
    | .stack .swap => do goesOn (← state.exchange?).advance
    | .stack .pop => do
        let (_, state) ← state.pop?
        goesOn state.advance
    | .jump => do takeJump? program (← operand? instr .jump) state
    | .branch condition => do
        let target ← operand? instr (.branch condition)
        let (value, state) ← state.pop?
        if condition.holds value then takeJump? program target state else goesOn state.advance

/-- Fetches the instruction at the position, counts it and executes it. -/
def turn? (program : Program) (inputs : List Word) (state : State) : Option Outcome := do
  let instr ← at? program.code state.pc
  execute? program inputs instr { state with steps := state.steps + 1 }

section

variable (program : Program) (inputs : List Word)

/-- The states in which the loop looks at the budget. -/
inductive Reaches : State → Prop
  | start : Reaches .start
  | turn (state after : State) (reached : Reaches state) (allowed : state.steps < program.budget)
      (inside : state.pc < program.length)
      (turned : turn? program inputs state = some ⟨after, none⟩) : Reaches after

/-- The loop ends from a state after so many more instructions. -/
inductive Ends : State → Nat → Run → Prop
  | spent (state : State) (used : program.budget ≤ state.steps) :
      Ends state 0 (state.ended (.fault .stepLimit))
  | past (state : State) (result : Result) (allowed : state.steps < program.budget)
      (outside : program.length ≤ state.pc) (halted : state.halt? = some result) :
      Ends state 0 (state.ended result)
  | stopped (state after : State) (result : Result) (allowed : state.steps < program.budget)
      (inside : state.pc < program.length)
      (turned : turn? program inputs state = some ⟨after, some result⟩) :
      Ends state 1 (after.ended result)
  | onward (state after : State) (count : Nat) (run : Run)
      (allowed : state.steps < program.budget) (inside : state.pc < program.length)
      (turned : turn? program inputs state = some ⟨after, none⟩) (later : Ends after count run) :
      Ends state (count + 1) run

/-- Whatever the loop is about to do in the state has a value. -/
def IsDefined (state : State) : Prop :=
  state.steps < program.budget →
    if state.pc < program.length then (turn? program inputs state).isSome = true
    else state.halt?.isSome = true

end

theorem at_nat {α : Type} (items : List α) (index : Nat) : at? items index = items[index]? := by
  rw [at?, if_neg (by omega), Int.toNat_natCast]

theorem floor_mod_positive (value modulus : Int) (positive : 0 < modulus) :
    floorMod? value modulus = some (value % modulus) := by
  have lower := Int.emod_nonneg value (Int.ne_of_gt positive)
  have upper := Int.emod_lt_of_pos value positive
  have signed := Int.tmod_eq_emod (a := value) (b := modulus)
  have size : (modulus.natAbs : Int) = modulus := Int.natAbs_of_nonneg (Int.le_of_lt positive)
  rw [floorMod?, if_neg (by omega)]
  simp only [Option.some.injEq]
  split at signed <;> split <;> omega

theorem resolve_jump_defined (mode : JumpMode) (length : Nat) (target : Word) :
    resolveJump? mode length target.toInt =
      some ((mode.resolve? length target).map fun position : Nat => (position : Int)) := by
  unfold resolveJump? JumpMode.resolve?
  by_cases empty : length = 0
  · rw [if_pos empty, if_pos (by omega)]
    rfl
  rw [if_neg empty, if_neg (by omega)]
  by_cases inside : 0 ≤ target.toInt ∧ target.toInt < length
  · rw [if_pos inside, if_pos inside, Option.map_some, Int.toNat_of_nonneg inside.1]
  rw [if_neg inside, if_neg inside]
  cases mode with
  | error => rfl
  | clamp =>
      by_cases negative : target.toInt < 0
      · simp [negative]
      · simp only [if_neg negative, Option.map_some]
        congr 2
        omega
  | wrap =>
      have lower := Int.emod_nonneg target.toInt (show (length : Int) ≠ 0 by omega)
      simp only [floor_mod_positive _ _ (show 0 < (length : Int) by omega), Option.map_some,
        Int.toNat_of_nonneg lower]

theorem resolve_input_defined (mode : InputMode) (count : Nat) (index : Word) :
    resolveInput? mode count index.toInt =
      some ((mode.resolve? count index).map fun position : Nat => (position : Int)) := by
  cases mode with
  | direct =>
      simp only [resolveInput?, InputMode.resolve?]
      by_cases inside : 0 ≤ index.toInt ∧ index.toInt < count
      · rw [if_pos inside, if_neg (by omega), Option.map_some, Int.toNat_of_nonneg inside.1]
      · rw [if_neg inside, if_pos (by omega)]
        rfl
  | cyclic =>
      simp only [resolveInput?, InputMode.resolve?]
      by_cases empty : count = 0
      · rw [if_pos empty, if_pos (by omega)]
        rfl
      · have lower := Int.emod_nonneg index.toInt (show (count : Int) ≠ 0 by omega)
        rw [if_neg empty, if_neg (by omega), floor_mod_positive _ _ (by omega), Option.map_some,
          Option.map_some, Int.toNat_of_nonneg lower]

theorem eval_of_checked (op : BinaryOp) (left right : Word)
    (checked : ¬((op = .div ∨ op = .mod) ∧ right = 0)) :
    ∃ value, op.eval? left right = some value :=
  Option.ne_none_iff_exists'.mp (mt (op.eval_none_iff left right).mp checked)

/-- Behind the check for a zero divisor every operation has the value that the machine gives it. -/
theorem result_defined (op : BinaryOp) (left right : Word)
    (checked : ¬((op = .div ∨ op = .mod) ∧ right = 0)) :
    result? op left right = op.eval? left right := by
  cases op with
  | div =>
      have nonzero : right ≠ 0 := fun zero => checked ⟨Or.inl rfl, zero⟩
      simp only [result?, BinaryOp.eval?, div?, quotient?, Word.div, nonzero, if_false, false_or]
      by_cases minusOne : right = -1
      · rw [if_pos minusOne, if_pos minusOne]
      · rw [if_neg minusOne, if_neg minusOne, if_neg fun both => minusOne both.2]
  | mod =>
      have nonzero : right ≠ 0 := fun zero => checked ⟨Or.inr rfl, zero⟩
      simp only [result?, BinaryOp.eval?, rem?, remainder?, Word.rem, nonzero, if_false, false_or]
      by_cases minusOne : right = -1
      · rw [if_pos minusOne, if_pos minusOne]
      · rw [if_neg minusOne, if_neg minusOne, if_neg fun both => minusOne both.2]
  | add | sub | mul | eq | gt | lt => rfl

/-- The engine's view of a configuration. -/
def State.of (config : Config) : State := ⟨config.stack.reverse, config.pc, config.steps⟩

/-- Of a run that ends here only the position and the steps are compared: a division and a taken
jump have popped their operands by then. -/
def Agrees (outcome : Option Outcome) : Transition → Prop
  | .next after => outcome = goesOn (.of after)
  | .done stop => ∃ state : State, outcome = stops state stop.result ∧
      state.pc = stop.config.pc ∧ state.steps = stop.config.steps

variable {program : Program} {inputs : List Word}

theorem stops_agrees (stack : List Word) (config : Config) (result : Result) :
    Agrees (stops ⟨stack, config.pc, config.steps⟩ result) (config.finish result) :=
  ⟨_, rfl, rfl, rfl⟩

theorem push_agrees (value : Word) (stack : List Word) (config : Config) :
    Agrees (goesOn (State.push ⟨stack.reverse, config.pc, config.steps⟩ value).advance)
      (config.advance (value :: stack)) := by
  simp [Agrees, Config.advance, State.push, State.advance, State.of]

theorem advance_agrees (stack : List Word) (config : Config) :
    Agrees (goesOn (State.advance ⟨stack.reverse, config.pc, config.steps⟩))
      (config.advance stack) := rfl

theorem pop_reversed (top : Word) (stack : List Word) (pc : Int) (steps : Nat) :
    State.pop? ⟨(top :: stack).reverse, pc, steps⟩ = some (top, ⟨stack.reverse, pc, steps⟩) := by
  simp [State.pop?]

theorem halt_defined (config : Config) : (State.of config).halt? = some (.halt config.stack) := by
  rcases shape : config.stack with _ | ⟨top, stack⟩
  · simp [State.halt?, State.of, shape, Result.halt]
  · simp [State.halt?, State.of, shape, Result.halt]

theorem exchange_reversed (upper lower : Word) (stack : List Word) (pc : Int) (steps : Nat) :
    State.exchange? ⟨(upper :: lower :: stack).reverse, pc, steps⟩ =
      some ⟨(lower :: upper :: stack).reverse, pc, steps⟩ := by
  have size : (stack.reverse ++ [lower, upper]).length = stack.reverse.length + 2 := by simp
  have first : ((stack.reverse.length + 2 : Nat) : Int) - 1 = (stack.reverse.length + 1 : Nat) := by
    omega
  have second : ((stack.reverse.length + 2 : Nat) : Int) - 2 = (stack.reverse.length : Nat) := by
    omega
  simp only [State.exchange?, List.reverse_cons, List.append_assoc, List.cons_append,
    List.nil_append, size, first, second, at_nat, Int.toNat_natCast]
  simp [List.set_append_right]

theorem take_jump_agrees (target : Word) (config : Config) (stack : List Word) :
    Agrees (takeJump? program target ⟨stack.reverse, config.pc, config.steps⟩)
      (program.takeJump target config stack) := by
  rw [takeJump?, Program.takeJump, resolve_jump_defined]
  cases program.jumpMode.resolve? program.length target with
  | none => exact stops_agrees _ config _
  | some position => rfl

theorem depth_of (config : Config) : (State.of config).stack.length = config.stack.length :=
  List.length_reverse

theorem not_shallow {instr : Instr} {config : Config}
    (deep : instr.opcode.requiredDepth ≤ config.stack.length) :
    ¬(State.of config).stack.length < instr.opcode.requiredDepth := by
  rw [depth_of]
  exact Nat.not_lt.mpr deep

section

variable {config : Config}

theorem load_agrees (index : Word) :
    Agrees (execute? program inputs (.loadInput index) (.of config))
      (program.execute inputs (.loadInput index) config) := by
  have operand : operand? (.loadInput index) .loadInput = some index := rfl
  have deep : (Instr.loadInput index).opcode.requiredDepth ≤ config.stack.length := Nat.zero_le _
  rw [execute?, if_neg (not_shallow deep), Program.execute_load, InputMode.fetch?]
  simp only [Instr.opcode, operand, resolve_input_defined, Option.bind_eq_bind, Option.bind_some]
  cases resolved : program.inputMode.resolve? inputs.length index with
  | none => exact stops_agrees _ config _
  | some position =>
      have inside := InputMode.resolve_lt _ _ _ _ resolved
      simp only [Option.map_some, Option.bind_some, at_nat, List.getElem?_eq_getElem inside]
      exact push_agrees _ config.stack config

theorem binary_agrees (op : BinaryOp)
    (deep : (Instr.binary op).opcode.requiredDepth ≤ config.stack.length) :
    Agrees (execute? program inputs (.binary op) (.of config))
      (program.execute inputs (.binary op) config) := by
  obtain ⟨right, left, stack, shape⟩ := two_entries deep
  rw [execute?, if_neg (not_shallow deep), Program.execute_binary op shape]
  simp only [Instr.opcode, State.of, shape, pop_reversed, Option.bind_eq_bind, Option.bind_some]
  split
  · next zero =>
      rw [(op.eval_none_iff left right).mpr zero]
      exact stops_agrees _ config _
  · next checked =>
      obtain ⟨value, evaluated⟩ := eval_of_checked op left right checked
      rw [result_defined op left right checked, evaluated]
      exact push_agrees value stack config

theorem unary_agrees (op : UnaryOp)
    (deep : (Instr.unary op).opcode.requiredDepth ≤ config.stack.length) :
    Agrees (execute? program inputs (.unary op) (.of config))
      (program.execute inputs (.unary op) config) := by
  obtain ⟨value, stack, shape⟩ := List.exists_cons_of_length_pos deep
  rw [execute?, if_neg (not_shallow deep), Program.execute_unary op shape]
  simp only [Instr.opcode, State.of, shape, pop_reversed, Option.bind_eq_bind, Option.bind_some]
  exact push_agrees _ stack config

theorem stack_agrees (op : StackOp)
    (deep : (Instr.stack op).opcode.requiredDepth ≤ config.stack.length) :
    Agrees (execute? program inputs (.stack op) (.of config))
      (program.execute inputs (.stack op) config) := by
  rw [execute?, if_neg (not_shallow deep)]
  cases op with
  | dup =>
      obtain ⟨value, stack, shape⟩ := List.exists_cons_of_length_pos deep
      have top : (value :: stack).reverse.getLast? = some value := by simp
      rw [Program.execute_dup shape]
      simp only [Instr.opcode, State.of, shape, top, Option.bind_eq_bind, Option.bind_some]
      exact push_agrees value (value :: stack) config
  | swap =>
      obtain ⟨upper, lower, stack, shape⟩ := two_entries deep
      rw [Program.execute_swap shape]
      simp only [Instr.opcode, State.of, shape, exchange_reversed, Option.bind_eq_bind,
        Option.bind_some]
      exact advance_agrees (lower :: upper :: stack) config
  | pop =>
      obtain ⟨value, stack, shape⟩ := List.exists_cons_of_length_pos deep
      rw [Program.execute_pop shape]
      simp only [Instr.opcode, State.of, shape, pop_reversed, Option.bind_eq_bind,
        Option.bind_some]
      exact advance_agrees stack config

theorem branch_agrees (condition : Condition) (target : Word)
    (deep : (Instr.branch condition target).opcode.requiredDepth ≤ config.stack.length) :
    Agrees (execute? program inputs (.branch condition target) (.of config))
      (program.execute inputs (.branch condition target) config) := by
  obtain ⟨value, stack, shape⟩ := List.exists_cons_of_length_pos deep
  have operand : operand? (.branch condition target) (.branch condition) = some target :=
    if_pos rfl
  rw [execute?, if_neg (not_shallow deep), Program.execute_branch condition target shape]
  simp only [Instr.opcode, operand, State.of, shape, pop_reversed, Option.bind_eq_bind,
    Option.bind_some]
  split
  · exact take_jump_agrees target config stack
  · exact advance_agrees stack config

end

/-- One case for each instruction. The depth check leaves as many entries as the pops take. -/
theorem execute_agrees (instr : Instr) (config : Config) :
    Agrees (execute? program inputs instr (.of config)) (program.execute inputs instr config) := by
  by_cases shallow : config.stack.length < instr.opcode.requiredDepth
  · rw [execute?, if_pos (by rwa [depth_of]), Program.execute_shallow instr shallow]
    exact stops_agrees _ config _
  have deep : instr.opcode.requiredDepth ≤ config.stack.length := Nat.le_of_not_lt shallow
  cases instr with
  | halt =>
      rw [execute?, if_neg (not_shallow deep), Program.execute_halt]
      simp only [Instr.opcode, halt_defined, Option.bind_eq_bind, Option.bind_some]
      exact stops_agrees _ config _
  | pushConst value =>
      rw [execute?, if_neg (not_shallow deep), Program.execute_push]
      exact push_agrees value config.stack config
  | loadInput index => exact load_agrees index
  | binary op => exact binary_agrees op deep
  | unary op => exact unary_agrees op deep
  | stack op => exact stack_agrees op deep
  | jump target =>
      rw [execute?, if_neg (not_shallow deep), Program.execute_jump]
      exact take_jump_agrees target config config.stack
  | branch condition target => exact branch_agrees condition target deep

theorem turn_agrees (inputs : List Word) (config : Config) (inside : config.pc < program.length) :
    Agrees (turn? program inputs (.of config)) (program.step inputs config) := by
  have found : program.code[config.pc]? = some program.code[config.pc] :=
    List.getElem?_eq_getElem inside
  rw [turn?, Program.step, found]
  simp only [State.of, at_nat, found, Option.bind_eq_bind, Option.bind_some]
  exact execute_agrees _ { config with steps := config.steps + 1 }

/-- A configuration between two steps of the machine. -/
structure Bounded (program : Program) (config : Config) : Prop where
  inside : config.pc ≤ program.length
  allowed : config.steps ≤ program.budget
  shallow : config.stack.length ≤ config.steps

theorem bounded_start : Bounded program .start :=
  ⟨Nat.zero_le _, Nat.zero_le _, Nat.le_refl _⟩

theorem bounded_next {config after : Config} (bounded : Bounded program config)
    (allowed : config.steps < program.budget)
    (went : program.step inputs config = .next after) : Bounded program after := by
  have follows := Program.step_next config after went
  exact ⟨follows.pc, by rw [follows.steps]; exact allowed, follows.shallow bounded.shallow⟩

theorem turn_next (config : Config) (inside : config.pc < program.length) (after : State)
    (turned : turn? program inputs (.of config) = some ⟨after, none⟩) :
    ∃ next : Config, program.step inputs config = .next next ∧ after = .of next := by
  have agrees := turn_agrees inputs config inside
  cases stepped : program.step inputs config with
  | next next =>
      rw [stepped, Agrees, turned, goesOn, Option.some.injEq, Outcome.mk.injEq] at agrees
      exact ⟨next, rfl, agrees.1⟩
  | done stop =>
      rw [stepped, Agrees, turned] at agrees
      obtain ⟨state, stopped, -⟩ := agrees
      simp [stops] at stopped

/-- Every state of the loop is the view of a configuration within its bounds. -/
theorem reaches_bounded (state : State) (reached : Reaches program inputs state) :
    ∃ config : Config, state = .of config ∧ Bounded program config := by
  induction reached with
  | start => exact ⟨.start, rfl, bounded_start⟩
  | turn state after _ allowed inside turned ih =>
      obtain ⟨config, rfl, bounded⟩ := ih
      obtain ⟨next, went, rfl⟩ := turn_next config (Int.ofNat_lt.mp inside) after turned
      exact ⟨next, rfl, bounded_next bounded allowed went⟩

theorem defined_of_config (config : Config) : IsDefined program inputs (.of config) := by
  intro _
  split
  · next inside =>
      have agrees := turn_agrees inputs config (Int.ofNat_lt.mp inside)
      cases stepped : program.step inputs config with
      | next after =>
          rw [stepped, Agrees] at agrees
          rw [agrees]
          rfl
      | done stop =>
          rw [stepped, Agrees] at agrees
          obtain ⟨state, stopped, -⟩ := agrees
          rw [stopped]
          rfl
  · rw [halt_defined]
    rfl

/-- By induction on what is left of the budget: each turn takes one step off it. -/
theorem ends_as_stop_from (remaining : Nat) (config : Config)
    (left : config.steps + remaining = program.budget) (bounded : Bounded program config) :
    ∃ count ≤ remaining, Ends program inputs (.of config) count
      (program.stopFrom inputs remaining config).run := by
  induction remaining generalizing config with
  | zero =>
      have used : program.budget ≤ (State.of config).steps := Nat.le_of_eq left.symm
      exact ⟨0, Nat.le_refl 0, .spent (.of config) used⟩
  | succ remaining ih =>
      have allowed : (State.of config).steps < program.budget := by
        change config.steps < _
        omega
      by_cases inside : config.pc < program.length
      · have within : (State.of config).pc < program.length := Int.ofNat_lt.mpr inside
        have agrees := turn_agrees inputs config inside
        cases stepped : program.step inputs config with
        | next after =>
            rw [stepped, Agrees, goesOn] at agrees
            have counted := (Program.step_next config after stepped).steps
            obtain ⟨count, small, later⟩ :=
              ih after (by omega) (bounded_next bounded allowed stepped)
            rw [Program.stopFrom, stepped]
            exact ⟨count + 1, Nat.succ_le_succ small, .onward _ _ _ _ allowed within agrees later⟩
        | done stop =>
            rw [stepped, Agrees] at agrees
            obtain ⟨state, stopped, pc, steps⟩ := agrees
            have run : state.ended stop.result = stop.run := by
              simp [State.ended, Stop.run, pc, steps]
            rw [Program.stopFrom, stepped]
            refine ⟨1, Nat.succ_le_succ (Nat.zero_le _), ?_⟩
            have ends := Ends.stopped _ _ _ allowed within stopped
            rwa [run] at ends
      · have outside : (program.length : Int) ≤ (State.of config).pc :=
          Int.ofNat_le.mpr (Nat.le_of_not_lt inside)
        have missing : program.code[config.pc]? = none :=
          List.getElem?_eq_none (Nat.le_of_not_lt inside)
        rw [Program.stopFrom, Program.step, missing]
        exact ⟨0, Nat.zero_le _, .past _ _ allowed outside (halt_defined config)⟩

/-- The engine never leaves its domain. Between two turns its position is inside the code or just
past it, its steps are within the budget and its stack is no longer than its steps; whatever it is
about to do there is defined. And it ends, after at most as many instructions as the budget allows,
with the run of the machine. -/
theorem stays_within_domain (program : Program) (inputs : List Word) :
    (∀ state : State, Reaches program inputs state →
      (0 ≤ state.pc ∧ state.pc ≤ program.length ∧ state.steps ≤ program.budget ∧
        state.stack.length ≤ state.steps) ∧
      IsDefined program inputs state) ∧
    ∃ count ≤ program.budget, Ends program inputs .start count (program.run inputs) := by
  constructor
  · intro state reached
    obtain ⟨config, rfl, bounded⟩ := reaches_bounded state reached
    have depth : (State.of config).stack.length = config.stack.length := by simp [State.of]
    refine ⟨⟨Int.natCast_nonneg _, Int.ofNat_le.mpr bounded.inside, bounded.allowed, ?_⟩,
      defined_of_config config⟩
    rw [depth]
    exact bounded.shallow
  · exact ends_as_stop_from program.budget .start (Nat.zero_add _) bounded_start

end Engine

end StackMachine

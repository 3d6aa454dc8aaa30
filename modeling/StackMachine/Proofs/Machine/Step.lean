import StackMachine.Machine
import StackMachine.Proofs.Policy
import StackMachine.Proofs.Program
import StackMachine.Proofs.Word

/-!
# What one step does

An instruction either moves the machine on or ends the run, and two relations say on which stacks it
does what. A move finds as many entries as its opcode requires, changes the depth by the effect that
the opcode has, and leads to the next position or to a resolved target. So the stack is never longer
than the number of steps, which bounds it by the budget.
-/

namespace StackMachine

set_option autoImplicit false

theorem two_entries {stack : List Word} (deep : 2 ≤ stack.length) :
    ∃ upper lower rest, stack = upper :: lower :: rest := by
  obtain ⟨upper, rest, rfl⟩ := List.exists_cons_of_length_pos (Nat.lt_of_lt_of_le Nat.two_pos deep)
  obtain ⟨lower, rest, rfl⟩ := List.exists_cons_of_length_pos (Nat.le_of_succ_le_succ deep)
  exact ⟨upper, lower, rest, rfl⟩

theorem BinaryOp.eval_none_iff (op : BinaryOp) (left right : Word) :
    op.eval? left right = none ↔ (op = .div ∨ op = .mod) ∧ right = 0 := by
  cases op <;> simp [eval?]

theorem BinaryOp.value_of_div {left right value : Word}
    (evaluated : BinaryOp.div.eval? left right = some value) :
    right.toInt ≠ 0 ∧ value = Int64.ofInt (left.toInt.tdiv right.toInt) := by
  obtain ⟨nonzero, quotient⟩ := Option.ite_none_left_eq_some.mp evaluated
  refine ⟨fun zero => nonzero (Int64.toInt.inj zero), ?_⟩
  rw [← Word.div_wraps]
  exact (Option.some.inj quotient).symm

theorem BinaryOp.value_of_mod {left right value : Word}
    (evaluated : BinaryOp.mod.eval? left right = some value) :
    right.toInt ≠ 0 ∧ value = Int64.ofInt (left.toInt.tmod right.toInt) := by
  obtain ⟨nonzero, remainder⟩ := Option.ite_none_left_eq_some.mp evaluated
  refine ⟨fun zero => nonzero (Int64.toInt.inj zero), ?_⟩
  rw [← Word.rem_wraps]
  exact (Option.some.inj remainder).symm

/-- The target that the instruction is about to jump to, if it jumps on this stack. -/
def Instr.taken? : Instr → List Word → Option Word
  | .jump target, _ => some target
  | .branch condition target, value :: _ => if condition.holds value then some target else none
  | _, _ => none

/-- The entries that an opcode adds to the stack, less those that it takes off. -/
def Opcode.netEffect : Opcode → Int
  | .pushConst | .loadInput | .stack .dup => 1
  | .halt | .unary _ | .stack .swap | .jump => 0
  | .binary _ | .stack .pop | .branch _ => -1

theorem Opcode.net_effect_le_one (opcode : Opcode) : opcode.netEffect ≤ 1 := by
  unfold netEffect
  split <;> decide

theorem Opcode.required_depth_le_two (opcode : Opcode) : opcode.requiredDepth ≤ 2 := by
  unfold requiredDepth
  split <;> decide

theorem Opcode.stack_depth (op : StackOp) :
    (Opcode.stack op).requiredDepth = 1 ∨ (Opcode.stack op).requiredDepth = 2 := by
  cases op <;> simp [requiredDepth]

/-- The fields of a configuration that a step of the program may lead to. -/
structure Config.Follows (program : Program) (before after : Config) : Prop where
  steps : after.steps = before.steps + 1
  inside : before.pc < program.length
  pc : after.pc ≤ program.length
  depth : after.stack.length ≤ before.stack.length + 1

theorem Config.Follows.shallow {program : Program} {before after : Config}
    (follows : before.Follows program after) (shallow : before.stack.length ≤ before.steps) :
    after.stack.length ≤ after.steps := by
  rw [follows.steps]
  exact Nat.le_trans follows.depth (Nat.succ_le_succ shallow)

namespace Program

section

variable (program : Program) (inputs : List Word)

/-- How an instruction goes on from a position and a stack to the next position and stack. -/
inductive Moves : Instr → Nat → List Word → Nat → List Word → Prop
  | pushConst (value : Word) (pc : Nat) (stack : List Word) :
      Moves (.pushConst value) pc stack (pc + 1) (value :: stack)
  | loadInput (index value : Word) (pc : Nat) (stack : List Word)
      (fetched : program.inputMode.fetch? inputs index = some value) :
      Moves (.loadInput index) pc stack (pc + 1) (value :: stack)
  | binary (op : BinaryOp) (right left value : Word) (pc : Nat) (stack : List Word)
      (evaluated : op.eval? left right = some value) :
      Moves (.binary op) pc (right :: left :: stack) (pc + 1) (value :: stack)
  | unary (op : UnaryOp) (value : Word) (pc : Nat) (stack : List Word) :
      Moves (.unary op) pc (value :: stack) (pc + 1) (op.eval value :: stack)
  | dup (value : Word) (pc : Nat) (stack : List Word) :
      Moves (.stack .dup) pc (value :: stack) (pc + 1) (value :: value :: stack)
  | swap (upper lower : Word) (pc : Nat) (stack : List Word) :
      Moves (.stack .swap) pc (upper :: lower :: stack) (pc + 1) (lower :: upper :: stack)
  | pop (value : Word) (pc : Nat) (stack : List Word) :
      Moves (.stack .pop) pc (value :: stack) (pc + 1) stack
  | jump (target : Word) (pc position : Nat) (stack : List Word)
      (resolved : program.jumpMode.resolve? program.length target = some position) :
      Moves (.jump target) pc stack position stack
  | taken (condition : Condition) (target value : Word) (pc position : Nat) (stack : List Word)
      (holds : condition.holds value = true)
      (resolved : program.jumpMode.resolve? program.length target = some position) :
      Moves (.branch condition target) pc (value :: stack) position stack
  | passed (condition : Condition) (target value : Word) (pc : Nat) (stack : List Word)
      (fails : condition.holds value = false) :
      Moves (.branch condition target) pc (value :: stack) (pc + 1) stack

/-- How an instruction ends the run on the stack that it finds. -/
inductive Ends : Instr → List Word → Result → Prop
  | halted (stack : List Word) : Ends .halt stack (.halt stack)
  | shallow (instr : Instr) (stack : List Word)
      (few : stack.length < instr.opcode.requiredDepth) :
      Ends instr stack (.fault .stackUnderflow)
  | lost (instr : Instr) (target : Word) (stack : List Word)
      (taken : instr.taken? stack = some target)
      (unresolved : program.jumpMode.resolve? program.length target = none) :
      Ends instr stack (.fault .badJumpTarget)
  | divided (op : BinaryOp) (right left : Word) (stack : List Word)
      (undefined : op.eval? left right = none) :
      Ends (.binary op) (right :: left :: stack) (.fault .divOrModByZero)
  | starved (index : Word) (stack : List Word)
      (missing : program.inputMode.fetch? inputs index = none) :
      Ends (.loadInput index) stack (.fault .invalidInputIndex)

/-- The positions to which an instruction may lead. A halt leads nowhere. -/
def Leads (pc : Nat) (instr : Instr) (next : Nat) : Prop :=
  match instr with
  | .halt => False
  | .jump target => program.jumpMode.resolve? program.length target = some next
  | .branch _ target =>
      next = pc + 1 ∨ program.jumpMode.resolve? program.length target = some next
  | .pushConst _ | .loadInput _ | .binary _ | .unary _ | .stack _ => next = pc + 1

end

variable {program : Program} {inputs : List Word}

section

variable {instr : Instr} {pc next : Nat} {stack left : List Word}

theorem Moves.deep (moves : program.Moves inputs instr pc stack next left) :
    instr.opcode.requiredDepth ≤ stack.length := by
  cases moves <;> simp [Instr.opcode, Opcode.requiredDepth]

theorem Moves.depth (moves : program.Moves inputs instr pc stack next left) :
    (left.length : Int) = stack.length + instr.opcode.netEffect := by
  cases moves <;> simp only [Instr.opcode, Opcode.netEffect, List.length_cons] <;> omega

theorem Moves.leads (moves : program.Moves inputs instr pc stack next left) :
    program.Leads pc instr next := by
  cases moves with
  | jump _ _ _ _ resolved => exact resolved
  | taken _ _ _ _ _ _ _ resolved => exact Or.inr resolved
  | passed => exact Or.inl rfl
  | pushConst | loadInput | binary | unary | dup | swap | pop => rfl

theorem Leads.inside (leads : program.Leads pc instr next) (inside : pc < program.length) :
    next ≤ program.length := by
  cases instr with
  | halt => exact leads.elim
  | jump target => exact Nat.le_of_lt (JumpMode.resolve_lt _ _ _ _ leads)
  | branch condition target =>
      rcases leads with rfl | resolved
      · exact inside
      · exact Nat.le_of_lt (JumpMode.resolve_lt _ _ _ _ resolved)
  | pushConst _ | loadInput _ | binary _ | unary _ | stack _ =>
      obtain rfl := leads
      exact inside

end

section

variable {config : Config} {stack : List Word}

/-- One line for all instructions: too few entries on the stack end the run there. -/
theorem execute_shallow (instr : Instr)
    (shallow : config.stack.length < instr.opcode.requiredDepth) :
    program.execute inputs instr config = config.finish (.fault .stackUnderflow) := by
  rcases shape : config.stack with _ | ⟨top, _ | ⟨lower, stack⟩⟩
  · cases instr with
    | stack op => cases op <;> (unfold execute; simp only [shape])
    | binary _ | unary _ | branch _ _ => unfold execute; simp only [shape]
    | halt | pushConst _ | loadInput _ | jump _ => simp [Instr.opcode, Opcode.requiredDepth] at shallow
  · cases instr with
    | stack op =>
        cases op with
        | swap => unfold execute; simp only [shape]
        | dup | pop => simp [shape, Instr.opcode, Opcode.requiredDepth] at shallow
    | binary _ => unfold execute; simp only [shape]
    | unary _ | branch _ _ | halt | pushConst _ | loadInput _ | jump _ =>
        simp [shape, Instr.opcode, Opcode.requiredDepth] at shallow
  · exfalso
    have least := instr.opcode.required_depth_le_two
    rw [shape, List.length_cons, List.length_cons] at shallow
    omega

theorem execute_halt :
    program.execute inputs .halt config = config.finish (.halt config.stack) := by
  unfold execute
  rfl

theorem execute_push (value : Word) :
    program.execute inputs (.pushConst value) config =
      config.advance (value :: config.stack) := by
  unfold execute
  rfl

theorem execute_load (index : Word) :
    program.execute inputs (.loadInput index) config =
      match program.inputMode.fetch? inputs index with
      | some value => config.advance (value :: config.stack)
      | none => config.finish (.fault .invalidInputIndex) := by
  unfold execute
  cases fetched : program.inputMode.fetch? inputs index <;> simp only [fetched]

theorem execute_binary (op : BinaryOp) {right left : Word}
    (shape : config.stack = right :: left :: stack) :
    program.execute inputs (.binary op) config =
      match op.eval? left right with
      | some value => config.advance (value :: stack)
      | none => config.finish (.fault .divOrModByZero) := by
  unfold execute
  cases evaluated : op.eval? left right <;> simp only [shape, evaluated]

theorem execute_unary (op : UnaryOp) {value : Word} (shape : config.stack = value :: stack) :
    program.execute inputs (.unary op) config = config.advance (op.eval value :: stack) := by
  unfold execute
  simp only [shape]

theorem execute_dup {value : Word} (shape : config.stack = value :: stack) :
    program.execute inputs (.stack .dup) config = config.advance (value :: value :: stack) := by
  unfold execute
  simp only [shape]

theorem execute_swap {upper lower : Word} (shape : config.stack = upper :: lower :: stack) :
    program.execute inputs (.stack .swap) config = config.advance (lower :: upper :: stack) := by
  unfold execute
  simp only [shape]

theorem execute_pop {value : Word} (shape : config.stack = value :: stack) :
    program.execute inputs (.stack .pop) config = config.advance stack := by
  unfold execute
  simp only [shape]

theorem execute_jump (target : Word) :
    program.execute inputs (.jump target) config =
      program.takeJump target config config.stack := by
  unfold execute
  rfl

theorem execute_branch (condition : Condition) (target : Word) {value : Word}
    (shape : config.stack = value :: stack) :
    program.execute inputs (.branch condition target) config =
      if condition.holds value then program.takeJump target config stack
      else config.advance stack := by
  unfold execute
  simp only [shape]

theorem stack_moves (program : Program) (inputs : List Word) (op : StackOp)
    (deep : (Opcode.stack op).requiredDepth ≤ config.stack.length) :
    ∃ left, program.Moves inputs (.stack op) config.pc config.stack (config.pc + 1) left ∧
      program.execute inputs (.stack op) config = config.advance left := by
  cases op with
  | dup =>
      obtain ⟨value, stack, shape⟩ := List.exists_cons_of_length_pos deep
      rw [execute_dup shape, shape]
      exact ⟨_, .dup value _ stack, rfl⟩
  | swap =>
      obtain ⟨upper, lower, stack, shape⟩ := two_entries deep
      rw [execute_swap shape, shape]
      exact ⟨_, .swap upper lower _ stack, rfl⟩
  | pop =>
      obtain ⟨value, stack, shape⟩ := List.exists_cons_of_length_pos deep
      rw [execute_pop shape, shape]
      exact ⟨_, .pop value _ stack, rfl⟩

theorem jump_moves_or_ends {instr : Instr} {target : Word}
    (taken : instr.taken? config.stack = some target)
    (moves : ∀ position, program.jumpMode.resolve? program.length target = some position →
      program.Moves inputs instr config.pc config.stack position stack) :
    (∃ pc left, program.Moves inputs instr config.pc config.stack pc left ∧
      program.takeJump target config stack = .next ⟨pc, left, config.steps⟩) ∨
    (∃ result, program.Ends inputs instr config.stack result ∧
      program.takeJump target config stack = config.finish result) := by
  rw [takeJump]
  cases resolved : program.jumpMode.resolve? program.length target with
  | some position => exact Or.inl ⟨position, stack, moves position resolved, rfl⟩
  | none => exact Or.inr ⟨_, .lost instr target _ taken resolved, rfl⟩

end

/-- The one case analysis over the instructions. What a run keeps, and how it ends, is read off the
two relations. -/
theorem execute_cases (program : Program) (inputs : List Word) (instr : Instr) (config : Config) :
    (∃ pc stack, program.Moves inputs instr config.pc config.stack pc stack ∧
      program.execute inputs instr config = .next ⟨pc, stack, config.steps⟩) ∨
    (∃ result, program.Ends inputs instr config.stack result ∧
      program.execute inputs instr config = config.finish result) := by
  by_cases few : config.stack.length < instr.opcode.requiredDepth
  · exact Or.inr ⟨_, .shallow instr config.stack few, execute_shallow instr few⟩
  have deep : instr.opcode.requiredDepth ≤ config.stack.length := Nat.le_of_not_lt few
  cases instr with
  | halt => exact Or.inr ⟨_, .halted config.stack, execute_halt⟩
  | pushConst value =>
      exact Or.inl ⟨_, _, .pushConst value config.pc config.stack, execute_push value⟩
  | loadInput index =>
      rw [execute_load]
      cases fetched : program.inputMode.fetch? inputs index with
      | some value => exact Or.inl ⟨_, _, .loadInput index value _ _ fetched, rfl⟩
      | none => exact Or.inr ⟨_, .starved index _ fetched, rfl⟩
  | binary op =>
      obtain ⟨right, left, stack, shape⟩ := two_entries deep
      rw [execute_binary op shape, shape]
      cases evaluated : op.eval? left right with
      | some value => exact Or.inl ⟨_, _, .binary op right left value _ stack evaluated, rfl⟩
      | none => exact Or.inr ⟨_, .divided op right left stack evaluated, rfl⟩
  | unary op =>
      obtain ⟨value, stack, shape⟩ := List.exists_cons_of_length_pos deep
      rw [execute_unary op shape, shape]
      exact Or.inl ⟨_, _, .unary op value _ stack, rfl⟩
  | stack op =>
      obtain ⟨left, moves, executed⟩ := stack_moves program inputs op deep
      exact Or.inl ⟨_, left, moves, executed⟩
  | jump target =>
      rw [execute_jump]
      exact jump_moves_or_ends rfl fun position resolved =>
        .jump target config.pc position config.stack resolved
  | branch condition target =>
      obtain ⟨value, stack, shape⟩ := List.exists_cons_of_length_pos deep
      rw [execute_branch condition target shape]
      cases holds : condition.holds value with
      | false =>
          rw [shape]
          exact Or.inl ⟨_, _, .passed condition target value _ stack holds, rfl⟩
      | true =>
          have taken : (Instr.branch condition target).taken? config.stack = some target := by
            rw [shape]
            exact if_pos holds
          refine jump_moves_or_ends taken fun position resolved => ?_
          rw [shape]
          exact .taken condition target value _ position stack holds resolved

theorem execute_next (instr : Instr) (config after : Config)
    (executed : program.execute inputs instr config = .next after) :
    program.Moves inputs instr config.pc config.stack after.pc after.stack ∧
      after.steps = config.steps := by
  rcases execute_cases program inputs instr config with ⟨pc, stack, moves, went⟩ | ⟨_, -, ended⟩
  · rw [executed] at went
    obtain rfl := Transition.next.inj went
    exact ⟨moves, rfl⟩
  · rw [executed] at ended
    cases ended

theorem execute_done (instr : Instr) (config : Config) (stop : Stop)
    (executed : program.execute inputs instr config = .done stop) :
    stop.config = config ∧ program.Ends inputs instr config.stack stop.result := by
  rcases execute_cases program inputs instr config with ⟨_, _, -, went⟩ | ⟨result, ends, ended⟩
  · rw [executed] at went
    cases went
  · rw [executed] at ended
    obtain rfl := Transition.done.inj ended
    exact ⟨rfl, ends⟩

section

variable {instr : Instr} {pc next : Nat} {stack left : List Word} {result : Result}

theorem Moves.execute (moves : program.Moves inputs instr pc stack next left) (steps : Nat) :
    program.execute inputs instr ⟨pc, stack, steps⟩ = .next ⟨next, left, steps⟩ := by
  cases moves with
  | pushConst | unary | dup | swap | pop => rfl
  | loadInput index value _ _ fetched =>
      rw [execute_load, fetched]
      rfl
  | binary op right left value _ stack evaluated =>
      rw [execute_binary op rfl, evaluated]
      rfl
  | jump target _ position _ resolved =>
      change program.takeJump target _ _ = _
      rw [takeJump, resolved]
  | taken condition target value _ position _ holds resolved =>
      rw [execute_branch condition target rfl, if_pos holds, takeJump, resolved]
  | passed condition target value _ _ fails =>
      rw [execute_branch condition target rfl, fails]
      rfl

theorem Ends.execute (ends : program.Ends inputs instr stack result) (pc steps : Nat) :
    program.execute inputs instr ⟨pc, stack, steps⟩ = .done ⟨⟨pc, stack, steps⟩, result⟩ := by
  cases ends with
  | halted => rfl
  | shallow _ _ few => exact execute_shallow instr few
  | divided op right left stack undefined =>
      rw [execute_binary op rfl, undefined]
      rfl
  | starved index _ missing =>
      rw [execute_load, missing]
      rfl
  | lost _ target _ taken unresolved =>
      unfold Instr.taken? at taken
      split at taken
      · obtain rfl := Option.some.inj taken
        change program.takeJump _ _ _ = _
        rw [takeJump, unresolved]
        rfl
      · next condition other value stack =>
          split at taken
          · next holds =>
              obtain rfl := Option.some.inj taken
              rw [execute_branch condition other rfl, if_pos holds, takeJump, unresolved]
              rfl
          · cases taken
      · cases taken

end

theorem step_moves (config after : Config) (went : program.step inputs config = .next after) :
    ∃ instr, program.code[config.pc]? = some instr ∧
      program.Moves inputs instr config.pc config.stack after.pc after.stack ∧
      after.steps = config.steps + 1 := by
  unfold step at went
  split at went
  · cases went
  · next instr found =>
      obtain ⟨moves, steps⟩ := execute_next instr _ after went
      exact ⟨instr, found, moves, steps⟩

theorem step_ends (config : Config) (stop : Stop)
    (ended : program.step inputs config = .done stop) :
    (program.code[config.pc]? = none ∧ stop = ⟨config, .halt config.stack⟩) ∨
    ∃ instr, program.code[config.pc]? = some instr ∧
      stop.config = { config with steps := config.steps + 1 } ∧
      program.Ends inputs instr config.stack stop.result := by
  unfold step at ended
  split at ended
  · next missing => exact Or.inl ⟨missing, (Transition.done.inj ended).symm⟩
  · next instr found =>
      obtain ⟨same, ends⟩ := execute_done instr _ stop ended
      exact Or.inr ⟨instr, found, same, ends⟩

theorem step_next (config after : Config) (went : program.step inputs config = .next after) :
    config.Follows program after := by
  obtain ⟨instr, found, moves, steps⟩ := step_moves config after went
  have inside : config.pc < program.length := (List.getElem?_eq_some_iff.mp found).1
  have grown := instr.opcode.net_effect_le_one
  have depth := moves.depth
  exact ⟨steps, inside, moves.leads.inside inside, by omega⟩

theorem halt_within_limit (stack : List Word) : (Result.halt stack).status ≠ .stepLimit := by
  cases stack <;> exact Status.noConfusion

/-- No instruction ends the run for want of budget. -/
theorem Ends.within_limit {instr : Instr} {stack : List Word} {result : Result}
    (ends : program.Ends inputs instr stack result) : result.status ≠ .stepLimit := by
  cases ends with
  | halted => exact halt_within_limit stack
  | shallow | lost | divided | starved => exact Status.noConfusion

/-- A run ends at the instruction it has reached, which is counted, or past the last one, which is
not. -/
theorem step_done (config : Config) (stop : Stop) (ended : program.step inputs config = .done stop) :
    stop.result.status ≠ .stepLimit ∧ stop.config.pc = config.pc ∧
      stop.config.steps = if config.pc < program.length then config.steps + 1 else config.steps := by
  rcases step_ends config stop ended with ⟨missing, rfl⟩ | ⟨instr, found, same, ends⟩
  · have past : ¬config.pc < program.length := Nat.not_lt.mpr (List.getElem?_eq_none_iff.mp missing)
    rw [if_neg past]
    exact ⟨halt_within_limit config.stack, rfl, rfl⟩
  · have inside : config.pc < program.length := (List.getElem?_eq_some_iff.mp found).1
    rw [same, if_pos inside]
    exact ⟨ends.within_limit, rfl, rfl⟩

end Program

end StackMachine

import StackMachine.Proofs.Machine.Step
import StackMachine.Render.Language

/-!
# A walk is a machine of its own

Before any language is chosen, the pieces of a walk already say what to compute: an arm with one
action for each position in order, and an arm for every other position. A machine that knows nothing
but these arms takes the arm with the number of its program counter, counts a step, checks the depth
that the opcode requires and then acts; the other arm counts nothing. Its turns follow the steps of
the program, although the jump targets were resolved when the walk was made.
-/

namespace StackMachine.Render

set_option autoImplicit false

namespace Action

def opcode : Action → Opcode
  | .halt => .halt
  | .pushConst _ _ => .pushConst
  | .loadInput _ _ _ => .loadInput
  | .jump _ => .jump
  | .binary opcode _ | .unary opcode _ | .stack opcode _ | .branch opcode _ _ => opcode

/-- The opcode is one of those that the class of the action is for. -/
def Fits : Action → Prop
  | .halt | .pushConst _ _ | .loadInput _ _ _ | .jump _ => True
  | .binary opcode _ => ∃ op, opcode = .binary op
  | .unary opcode _ => ∃ op, opcode = .unary op
  | .stack opcode _ => ∃ op, opcode = .stack op
  | .branch opcode _ _ => ∃ condition, opcode = .branch condition

end Action

/-- What an action comes to: it stores the next position and leaves a stack, or it returns. -/
inductive Effect where
  | goes (next : Int) (stack : List Word)
  | returns (result : Result)
deriving DecidableEq, Repr

/-- A jump goes to its position; without one it is a fault. -/
def Effect.jump (target : Option Int) (stack : List Word) : Effect :=
  match target with
  | some position => .goes position stack
  | none => .returns (.fault .badJumpTarget)

/-- The effect of an action on a stack as deep as its opcode requires. An action on a stack that is
less deep has none, and neither has an opcode outside the class of its action. -/
def Action.effect? (inputs : List Word) (action : Action) (stack : List Word) : Option Effect :=
  match action, stack with
  | .halt, stack => some (.returns (.halt stack))
  | .pushConst value next, stack => some (.goes next (value :: stack))
  | .loadInput index mode next, stack =>
      match mode.fetch? inputs index with
      | some value => some (.goes next (value :: stack))
      | none => some (.returns (.fault .invalidInputIndex))
  | .binary (.binary op) next, right :: left :: stack =>
      match op.eval? left right with
      | some value => some (.goes next (value :: stack))
      | none => some (.returns (.fault .divOrModByZero))
  | .unary (.unary op) next, value :: stack => some (.goes next (op.eval value :: stack))
  | .stack (.stack .dup) next, value :: stack => some (.goes next (value :: value :: stack))
  | .stack (.stack .swap) next, upper :: lower :: stack =>
      some (.goes next (lower :: upper :: stack))
  | .stack (.stack .pop) next, _ :: stack => some (.goes next stack)
  | .jump target, stack => some (.jump target stack)
  | .branch (.branch condition) target next, value :: stack =>
      some (if condition.holds value then .jump target stack else .goes next stack)
  | _, _ => none

/-- The arms of a walk: one for each number, and one for every other position. -/
structure Dispatch where
  maxSteps : Word
  arms : List (Int × Action)
  other : Action
deriving DecidableEq, Repr

namespace Dispatch

/-- The arms after the opening. An arm holds one action, only the first arm of all is marked as the
first, and nothing but the closing follows the arm for the other positions. -/
def armsOf? (begun : Bool) : List Piece → Option (List (Int × Action) × Action)
  | [.otherArm first, .action action, .endArm, .closing] =>
      if first = !begun then some ([], action) else none
  | .arm number first :: .action action :: .endArm :: rest =>
      if first = !begun then
        (armsOf? true rest).map fun (arms, other) => ((number, action) :: arms, other)
      else none
  | _ => none

def ofPieces? : List Piece → Option Dispatch
  | .opening _ program :: rest =>
      (armsOf? false rest).map fun (arms, other) => ⟨program.maxSteps, arms, other⟩
  | _ => none

def armsFrom (program : Program) (pc : Nat) : List Instr → List (Int × Action)
  | [] => []
  | instr :: rest => ((pc : Int), .ofInstr program pc instr) :: armsFrom program (pc + 1) rest

/-- The arms that the walk over a program gives. -/
def ofProgram (program : Program) : Dispatch :=
  ⟨program.maxSteps, armsFrom program 0 program.code, .halt⟩

theorem arms_of_arms (program : Program) (pc : Nat) (code : List Instr)
    (begun : pc = 0 → code ≠ []) :
    armsOf? (pc != 0) (Render.arms program pc code ++
      [.otherArm false, .action .halt, .endArm, .closing]) =
        some (armsFrom program pc code, .halt) := by
  induction code generalizing pc with
  | nil =>
      have later : (pc != 0) = true := by simpa using begun
      rw [later]
      rfl
  | cons instr code ih =>
      have later : (pc + 1 != 0) = true := by simp
      have rest := ih (pc + 1) (by simp)
      have first : (pc == 0) = !(pc != 0) := by simp [bne]
      rw [later] at rest
      simp only [Render.arms, List.cons_append, armsOf?, rest, first, if_true, Option.map_some,
        armsFrom]

/-- The walk has no pieces but these: an opening, an arm for each position in order, the arm for the
others and the closing. -/
theorem of_pieces_walk (name : Text) (program : Program) :
    ofPieces? (walk name program) = some (ofProgram program) := by
  have nonempty : program.code ≠ [] := List.ne_nil_of_mem program.halts
  have opened : (program.length == 0) = false := by simp [Program.length, nonempty]
  have arms := arms_of_arms program 0 program.code fun _ => nonempty
  simp only [walk, opened, List.cons_append, ofPieces?]
  exact congrArg (Option.map _) arms

theorem arm_numbers (program : Program) (pc : Nat) (code : List Instr) :
    (armsFrom program pc code).map Prod.fst =
      (List.range' pc code.length).map fun position : Nat => (position : Int) := by
  induction code generalizing pc with
  | nil => rfl
  | cons instr code ih => rw [armsFrom, List.map_cons, ih, List.length_cons, List.range'_succ,
      List.map_cons]

theorem lookup_arm (program : Program) (start position : Nat) (code : List Instr)
    (below : start ≤ position) :
    (armsFrom program start code).lookup (position : Int) =
      (code[position - start]?).map (.ofInstr program position) := by
  induction code generalizing start with
  | nil => simp [armsFrom]
  | cons instr code ih =>
      by_cases here : position = start
      · subst here
        simp [armsFrom]
      · have later : position - start = position - (start + 1) + 1 := by omega
        have other : ((position : Int) == (start : Int)) = false :=
          beq_eq_false_iff_ne.mpr (by omega)
        rw [armsFrom, List.lookup_cons, other, later, List.getElem?_cons_succ]
        exact ih (start + 1) (by omega)

/-- The machine between two arms. The top of the stack comes first. -/
structure State where
  pc : Int
  stack : List Word
  steps : Nat
deriving DecidableEq, Repr

/-- How the machine ended and where. -/
structure Ended where
  result : Result
  steps : Nat
  pc : Int
deriving DecidableEq, Repr

inductive Turn where
  | next (state : State)
  | done (ended : Ended)
deriving DecidableEq, Repr

def turnOf (state : State) : Effect → Turn
  | .goes next stack => .next ⟨next, stack, state.steps⟩
  | .returns result => .done ⟨result, state.steps, state.pc⟩

/-- An arm counts a step and checks the depth before it acts; the other arm just acts. -/
def turn? (dispatch : Dispatch) (inputs : List Word) (state : State) : Option Turn :=
  match dispatch.arms.lookup state.pc with
  | some action =>
      let counted : State := { state with steps := state.steps + 1 }
      if state.stack.length < action.opcode.requiredDepth then
        some (turnOf counted (.returns (.fault .stackUnderflow)))
      else (action.effect? inputs state.stack).map (turnOf counted)
  | none => (dispatch.other.effect? inputs state.stack).map (turnOf state)

def budget (dispatch : Dispatch) : Nat := dispatch.maxSteps.toInt.toNat

/-- The loop, for at most so many turns. It looks at the steps before each turn, and a machine that
takes more turns or meets an action without an effect comes to no end here. -/
def loop? (dispatch : Dispatch) (inputs : List Word) : Nat → State → Option Ended
  | 0, _ => none
  | turns + 1, state =>
      if state.steps < dispatch.budget then
        match dispatch.turn? inputs state with
        | some (.next state) => dispatch.loop? inputs turns state
        | some (.done ended) => some ended
        | none => none
      else some ⟨.fault .stepLimit, state.steps, state.pc⟩

/-- One turn for every step that the budget allows, and one to find it spent. -/
def run? (dispatch : Dispatch) (inputs : List Word) : Option Ended :=
  dispatch.loop? inputs (dispatch.budget + 1) ⟨0, [], 0⟩

def State.ofConfig (config : Config) : State := ⟨config.pc, config.stack, config.steps⟩

@[simp] theorem State.steps_of_config (config : Config) :
    (State.ofConfig config).steps = config.steps := rfl

def Ended.ofRun (run : Run) : Ended := ⟨run.result, run.steps, run.finalPc⟩

def Turn.ofTransition : Transition → Turn
  | .next config => .next (.ofConfig config)
  | .done stop => .done (.ofRun stop.run)

section

variable {program : Program} {inputs : List Word} {config : Config}

theorem jump_follows (target : Word) (stack : List Word) :
    turnOf (.ofConfig config)
        (.jump ((program.jumpMode.resolve? program.length target).map fun position => position)
          stack) =
      .ofTransition (program.takeJump target config stack) := by
  rw [Program.takeJump]
  cases program.jumpMode.resolve? program.length target <;> rfl

theorem advance_follows (stack : List Word) :
    turnOf (.ofConfig config) (.goes (config.pc + 1) stack) =
      .ofTransition (config.advance stack) := rfl

theorem finish_follows (result : Result) :
    turnOf (.ofConfig config) (.returns result) = .ofTransition (config.finish result) := rfl

theorem effect_follows (instr : Instr)
    (deep : instr.opcode.requiredDepth ≤ config.stack.length) :
    ((Action.ofInstr program config.pc instr).effect? inputs config.stack).map
        (turnOf (.ofConfig config)) =
      some (.ofTransition (program.execute inputs instr config)) := by
  cases instr with
  | halt =>
      rw [Program.execute_halt]
      exact congrArg some (finish_follows _)
  | pushConst value =>
      rw [Program.execute_push]
      exact congrArg some (advance_follows _)
  | loadInput index =>
      rw [Program.execute_load]
      simp only [Action.ofInstr, Action.effect?]
      cases program.inputMode.fetch? inputs index with
      | none => exact congrArg some (finish_follows _)
      | some value => exact congrArg some (advance_follows _)
  | binary op =>
      obtain ⟨right, left, stack, shape⟩ := two_entries deep
      rw [Program.execute_binary op shape, shape]
      simp only [Action.ofInstr, Action.effect?]
      cases op.eval? left right with
      | none => exact congrArg some (finish_follows _)
      | some value => exact congrArg some (advance_follows _)
  | unary op =>
      obtain ⟨value, stack, shape⟩ := List.exists_cons_of_length_pos deep
      rw [Program.execute_unary op shape, shape]
      exact congrArg some (advance_follows _)
  | stack op =>
      cases op with
      | dup =>
          obtain ⟨value, stack, shape⟩ := List.exists_cons_of_length_pos deep
          rw [Program.execute_dup shape, shape]
          exact congrArg some (advance_follows _)
      | swap =>
          obtain ⟨upper, lower, stack, shape⟩ := two_entries deep
          rw [Program.execute_swap shape, shape]
          exact congrArg some (advance_follows _)
      | pop =>
          obtain ⟨value, stack, shape⟩ := List.exists_cons_of_length_pos deep
          rw [Program.execute_pop shape, shape]
          exact congrArg some (advance_follows _)
  | jump target =>
      rw [Program.execute_jump]
      exact congrArg some (jump_follows target _)
  | branch condition target =>
      obtain ⟨value, stack, shape⟩ := List.exists_cons_of_length_pos deep
      rw [Program.execute_branch condition target shape, shape]
      simp only [Action.ofInstr, Action.effect?, Option.map_some]
      split
      · exact congrArg some (jump_follows target stack)
      · exact congrArg some (advance_follows stack)

theorem opcode_of_instr (pc : Nat) (instr : Instr) :
    (Action.ofInstr program pc instr).opcode = instr.opcode := by
  cases instr <;> rfl

theorem turn_follows :
    (ofProgram program).turn? inputs (.ofConfig config) =
      some (.ofTransition (program.step inputs config)) := by
  have found : (ofProgram program).arms.lookup (config.pc : Int) =
      (program.code[config.pc]?).map (.ofInstr program config.pc) :=
    lookup_arm program 0 config.pc program.code (Nat.zero_le _)
  unfold turn?
  simp only [State.ofConfig, found]
  unfold Program.step
  cases program.code[config.pc]? with
  | none => exact congrArg some (finish_follows _)
  | some instr =>
      let counted : Config := { config with steps := config.steps + 1 }
      have counts : State.ofConfig counted = ⟨config.pc, config.stack, config.steps + 1⟩ := rfl
      simp only [Option.map_some, opcode_of_instr, ← counts]
      by_cases shallow : config.stack.length < instr.opcode.requiredDepth
      · have stops : program.execute inputs instr counted =
            counted.finish (.fault .stackUnderflow) := Program.execute_shallow instr shallow
        rw [if_pos shallow, stops]
        exact congrArg some (finish_follows _)
      · have acts : ((Action.ofInstr program counted.pc instr).effect? inputs counted.stack).map
            (turnOf (.ofConfig counted)) =
              some (.ofTransition (program.execute inputs instr counted)) :=
          effect_follows instr (Nat.le_of_not_lt shallow)
        rw [if_neg shallow]
        exact acts

/-- The loop of the machine and the steps of the program spend the same budget. -/
theorem loop_follows (remaining : Nat) (spent : config.steps + remaining = program.budget) :
    (ofProgram program).loop? inputs (remaining + 1) (.ofConfig config) =
      some (.ofRun (program.stopFrom inputs remaining config).run) := by
  have budget : (ofProgram program).budget = program.budget := rfl
  induction remaining generalizing config with
  | zero =>
      have used : ¬config.steps < program.budget := by omega
      rw [loop?, budget, State.steps_of_config, if_neg used]
      rfl
  | succ remaining ih =>
      have within : config.steps < program.budget := by omega
      rw [loop?, budget, State.steps_of_config, if_pos within, turn_follows, Program.stopFrom]
      cases went : program.step inputs config with
      | next after =>
          have counted := (Program.step_next config after went).steps
          exact ih (by omega)
      | done stop => rfl

theorem run_follows :
    (ofProgram program).run? inputs = some (.ofRun (program.run inputs)) := by
  have spent : Config.start.steps + program.budget = program.budget := Nat.zero_add _
  exact loop_follows program.budget spent

end

end Dispatch

theorem Action.of_instr_fits (program : Program) (pc : Nat) (instr : Instr) :
    (Action.ofInstr program pc instr).Fits := by
  cases instr with
  | halt | pushConst _ | loadInput _ | jump _ => trivial
  | binary op | unary op | stack op => exact ⟨op, rfl⟩
  | branch condition _ => exact ⟨condition, rfl⟩

theorem Dispatch.arm_fits (program : Program) (pc : Nat) (code : List Instr) :
    ∀ arm ∈ armsFrom program pc code, arm.2.Fits := by
  induction code generalizing pc with
  | nil => simp [armsFrom]
  | cons instr code ih =>
      intro arm among
      rcases List.mem_cons.mp among with rfl | among
      · exact Action.of_instr_fits program pc instr
      · exact ih (pc + 1) arm among

theorem Language.misfit_iff (language : Language) (sheet : Sheet) (action : Action) :
    language.target.misfit sheet (.action action) = none ↔ action.Fits := by
  cases language <;> cases action with
  | halt | pushConst _ _ | loadInput _ _ _ | jump _ => exact ⟨fun _ => trivial, fun _ => rfl⟩
  | binary opcode _ | unary opcode _ | stack opcode _ | branch opcode _ _ =>
      cases opcode <;>
        simp [Action.Fits, Language.target, Target.misfit, Target.edits, Python.target, Python.body,
          Java.target, Java.body, Rust.target, Rust.body]

theorem arms_fit (program : Program) (pc : Nat) (code : List Instr) (action : Action)
    (among : .action action ∈ arms program pc code) : action.Fits := by
  induction code generalizing pc with
  | nil => cases among
  | cons instr code ih =>
      simp only [arms, List.mem_cons, reduceCtorEq, false_or, Piece.action.injEq] at among
      rcases among with rfl | among
      · exact Action.of_instr_fits program pc instr
      · exact ih (pc + 1) among

/-- The walk over a program already is a compilation of it. It opens, has one arm for each position
in order, one for the others and closes, no target refuses a piece of it, and the machine that its
arms describe ends every run as the program does. -/
theorem walk_compiles (name : Text) (program : Program) :
    ∃ dispatch, Dispatch.ofPieces? (walk name program) = some dispatch ∧
      dispatch.maxSteps = program.maxSteps ∧
      dispatch.arms.map Prod.fst =
        (List.range program.length).map (fun position : Nat => (position : Int)) ∧
      dispatch.other = .halt ∧
      (∀ arm ∈ dispatch.arms, arm.2.Fits) ∧
      (∀ (language : Language) (sheet : Sheet), ∀ piece ∈ walk name program,
        language.target.misfit sheet piece = none) ∧
      ∀ inputs, dispatch.run? inputs =
        some ⟨(program.run inputs).result, (program.run inputs).steps,
          (program.run inputs).finalPc⟩ := by
  refine ⟨.ofProgram program, Dispatch.of_pieces_walk name program, rfl, ?_, rfl,
    Dispatch.arm_fits program 0 program.code, ?_, fun inputs => Dispatch.run_follows⟩
  · rw [List.range_eq_range']
    exact Dispatch.arm_numbers program 0 program.code
  · intro language sheet piece among
    cases piece with
    | opening _ _ | arm _ _ | otherArm _ | endArm | closing => cases language <;> rfl
    | action action =>
        refine (language.misfit_iff sheet action).mpr ?_
        simp only [walk, List.mem_append, List.mem_cons, reduceCtorEq, false_or,
          Piece.action.injEq, List.not_mem_nil, or_false, List.cons_append] at among
        rcases among with among | rfl
        · exact arms_fit program 0 program.code action among
        · trivial

end StackMachine.Render

import StackMachine.Proofs.Python.Arithmetic
import StackMachine.Proofs.Python.Reading

/-!
# Rendered Python answers what the machine answers

While the loop runs, the variables of the rendered function hold the configuration of the machine:
the list ends with the top of the stack. Each arm does to the variables what its instruction does to
the configuration, so the loop returns the status and the value of the run.
-/

namespace StackMachine.Python

open StackMachine.Render StackMachine.Render.Python StackMachine.Source

set_option autoImplicit false

/-- The elements of a list that holds a stack. -/
def elementsOf (stack : List StackMachine.Word) : List Int := (stack.map Int64.toInt).reverse

/-- The variables hold the configuration. Those that only an arm uses may hold anything. -/
structure Tracks (inputs : List StackMachine.Word) (config : Config) (state : State) : Prop where
  helpers : state.helpers = helpers
  xs : state.scope .xs = some (.list (inputs.map Int64.toInt))
  stack : state.scope .stack = some (.list (elementsOf config.stack))
  pc : state.scope .pc = some (.int config.pc)
  steps : state.scope .steps = some (.int config.steps)

/-- The instruction computes a quotient or a remainder on this stack. -/
inductive DividesOn : Instr → List StackMachine.Word → Prop
  | intro (op : BinaryOp) (right left : StackMachine.Word) (stack : List StackMachine.Word)
      (division : op = .div ∨ op = .mod) (nonzero : right ≠ 0) :
      DividesOn (.binary op) (right :: left :: stack)

/-- The next step computes a quotient or a remainder. -/
def DividesAt (program : Program) (config : Config) : Prop :=
  ∃ instr, program.code[config.pc]? = some instr ∧ DividesOn instr config.stack

/-- The run computes a quotient or a remainder before its budget is spent. -/
def Divides (program : Program) (inputs : List StackMachine.Word) : Prop :=
  ∃ config, program.Reaches inputs config ∧ config.steps < program.budget ∧
    DividesAt program config

def answer (result : Result) : Value := .pair result.status.code result.value.toInt

theorem elements_of_cons (top : StackMachine.Word) (stack : List StackMachine.Word) :
    elementsOf (top :: stack) = elementsOf stack ++ [top.toInt] := by
  simp [elementsOf]

theorem elements_of_length (stack : List StackMachine.Word) :
    (elementsOf stack).length = stack.length := by
  simp [elementsOf]

theorem position_from_end (length below : Nat) (positive : 0 < below) (inside : below ≤ length) :
    position length (-(below : Int)) = .ok (length - below) := by
  simp only [position]
  rw [if_pos (by omega), if_pos (by omega)]
  congr 1
  omega

theorem element_last (elements : List Int) (last : Int) :
    elementAt (elements ++ [last]) (-1) = .ok last := by
  have place := position_from_end (elements ++ [last]).length 1 Nat.one_pos (by simp)
  rw [elementAt, show (-1 : Int) = -((1 : Nat) : Int) from rfl, place]
  simp [Except.bind]

variable {inner : Calls} {inputs : List StackMachine.Word} {config : Config} {state : State}
  (fuel : Nat)

theorem fail_returns (status : Status) (rest : Code Simple Expr Head) :
    (Code.simple (fail status) rest).exec (meaning inner) fuel state =
      .returned (answer (.fault status)) := rfl

theorem set_pc_tracks (tracks : Tracks inputs config state) (position : Nat) :
    ∃ after, (meaning inner).stmt (setPc position) state = .next after ∧
      Tracks inputs { config with pc := position } after :=
  ⟨{ state with scope := state.scope.set .pc (.int position) }, rfl, tracks.helpers, tracks.xs,
    tracks.stack, rfl, tracks.steps⟩

theorem increment_tracks (tracks : Tracks inputs config state) :
    ∃ after, (meaning inner).stmt (.increment .steps) state = .next after ∧
      Tracks inputs { config with steps := config.steps + 1 } after := by
  refine ⟨{ state with scope := state.scope.set .steps (.int (config.steps + 1)) }, ?_,
    tracks.helpers, tracks.xs, tracks.stack, tracks.pc, rfl⟩
  simp only [meaning, perform, Scope.value, tracks.steps]
  rfl

theorem push_tracks (tracks : Tracks inputs config state) (value : Expr)
    (word : StackMachine.Word)
    (evaluates : eval (callHelper inner helpers) value state.scope =
      .ok (.int word.toInt, state.scope)) :
    ∃ after, (meaning inner).stmt (.append .stack value) state = .next after ∧
      Tracks inputs { config with stack := word :: config.stack } after := by
  refine ⟨
    { state with scope := state.scope.set .stack (.list (elementsOf (word :: config.stack))) },
    ?_, tracks.helpers, tracks.xs, rfl, tracks.pc, tracks.steps⟩
  simp only [meaning, tracks.helpers, perform, evaluates, attempt, Scope.value, tracks.stack]
  rw [elements_of_cons]
  rfl

def IsTemporary (name : Var) : Prop :=
  name ≠ .xs ∧ name ≠ .stack ∧ name ≠ .pc ∧ name ≠ .steps

instance (name : Var) : Decidable (IsTemporary name) :=
  inferInstanceAs (Decidable (name ≠ .xs ∧ name ≠ .stack ∧ name ≠ .pc ∧ name ≠ .steps))

theorem pop_tracks (tracks : Tracks inputs config state) (top : StackMachine.Word)
    (stack : List StackMachine.Word) (shape : config.stack = top :: stack) (name : Var)
    (temporary : IsTemporary name) :
    ∃ after, (meaning inner).stmt (.assign name (.removeLast .stack)) state = .next after ∧
      Tracks inputs { config with stack := stack } after ∧
      after.scope name = some (.int top.toInt) ∧
      ∀ other, other ≠ name → other ≠ .stack → after.scope other = state.scope other := by
  obtain ⟨notXs, notStack, notPc, notSteps⟩ := temporary
  let scope := (state.scope.set .stack (.list (elementsOf stack))).set name (.int top.toInt)
  have elements : state.scope .stack = some (.list (elementsOf stack ++ [top.toInt])) := by
    rw [tracks.stack, shape, elements_of_cons]
  have popped : (meaning inner).stmt (.assign name (.removeLast .stack)) state =
      .next { state with scope := scope } := by
    simp only [meaning, perform, eval, Scope.value, elements, Value.elements, bind, Except.bind,
      element_last, attempt, Outcome.and_then_next, List.dropLast_concat]
    rfl
  have kept : ∀ other, other ≠ name → other ≠ .stack → scope other = state.scope other := by
    intro other notName notList
    simp [scope, Scope.set, notName, notList]
  refine ⟨{ state with scope := scope }, popped, ⟨tracks.helpers, ?_, ?_, ?_, ?_⟩, ?_, kept⟩
  · rw [← tracks.xs]
    exact kept .xs notXs.symm (by decide)
  · simp [scope, Scope.set, notStack.symm]
  · rw [← tracks.pc]
    exact kept .pc notPc.symm (by decide)
  · rw [← tracks.steps]
    exact kept .steps notSteps.symm (by decide)
  · simp [scope, Scope.set]

theorem test_of_eval {test : Expr} {condition : Bool} (tracks : Tracks inputs config state)
    (evaluates : eval (callHelper inner helpers) test state.scope =
      .ok (.ofBool condition, state.scope)) :
    (meaning inner).test test state = .ok (condition, state) := by
  rw [← tracks.helpers] at evaluates
  simp only [meaning, evaluates, Except.map, truth_of_bool]

theorem guard_exec (tracks : Tracks inputs config state) (test : Expr) (status : Status)
    (condition : Bool) (rest : Code Simple Expr Head)
    (evaluates : eval (callHelper inner helpers) test state.scope =
      .ok (.ofBool condition, state.scope)) :
    (Code.branch test (rowCode [fail status]) .done rest).exec (meaning inner) fuel state =
      if condition then .returned (answer (.fault status))
      else rest.exec (meaning inner) fuel state :=
  Code.exec_guard (test_of_eval tracks evaluates) rfl (fail_returns fuel status .done)

theorem stack_is_empty (inner : Calls) (tracks : Tracks inputs config state) :
    eval (callHelper inner helpers) (.isEmpty .stack) state.scope =
      .ok (.ofBool config.stack.isEmpty, state.scope) := by
  have same : (elementsOf config.stack).isEmpty = config.stack.isEmpty := by simp [elementsOf]
  rw [eval_is_empty tracks.stack, same]

theorem stack_length (inner : Calls) (tracks : Tracks inputs config state) :
    eval (callHelper inner helpers) (.length .stack) state.scope =
      .ok (.int config.stack.length, state.scope) := by
  rw [eval_length tracks.stack (call_len inner _), elements_of_length]

theorem require_depth_exec (inner : Calls) (tracks : Tracks inputs config state) (depth : Nat)
    (depthIs : depth = 1 ∨ depth = 2) (rest : List Stmt) :
    (code (requireDepth depth :: rest)).exec (meaning inner) fuel state =
      if config.stack.length < depth then .returned (answer (.fault .stackUnderflow))
      else (code rest).exec (meaning inner) fuel state := by
  rcases depthIs with rfl | rfl
  · have shallow : config.stack.isEmpty = decide (config.stack.length < 1) := by
      cases config.stack <;> simp
    have guard := guard_exec fuel tracks (.isEmpty .stack) .stackUnderflow _ (code rest)
      (stack_is_empty inner tracks)
    rw [shallow] at guard
    simp only [decide_eq_true_eq] at guard
    exact guard
  · have shallow : relate .lt (config.stack.length : Int) 2 =
        decide (config.stack.length < 2) := by
      rw [relate]
      exact decide_eq_decide.mpr (by omega)
    have compared : eval (callHelper inner helpers)
        (.compare .lt (.length .stack) (.int 2)) state.scope =
        .ok (.ofBool (relate .lt config.stack.length 2), state.scope) :=
      eval_compare _ (stack_length inner tracks) rfl
    have guard := guard_exec fuel tracks _ .stackUnderflow _ (code rest) compared
    rw [shallow] at guard
    simp only [decide_eq_true_eq] at guard
    exact guard

theorem advance_agrees (tracks : Tracks inputs config state) :
    Agrees (Tracks inputs) answer (.next { config with pc := config.pc + 1 })
      ((code [.simple (setPc (config.pc + 1))]).exec (meaning inner) fuel state) := by
  obtain ⟨after, goes, tracksAfter⟩ := set_pc_tracks tracks (config.pc + 1)
  refine ⟨after, ?_, tracksAfter⟩
  have moved : (meaning inner).stmt (setPc (config.pc + 1)) state = .next after := goes
  rw [code, Code.exec_simple moved]
  rfl

theorem push_agrees (tracks : Tracks inputs config state) (value : Expr)
    (word : StackMachine.Word)
    (evaluates : eval (callHelper inner helpers) value state.scope =
      .ok (.int word.toInt, state.scope)) :
    Agrees (Tracks inputs) answer (config.advance (word :: config.stack))
      ((code [.simple (.append .stack value), .simple (setPc (config.pc + 1))]).exec
        (meaning inner) fuel state) := by
  obtain ⟨after, goes, tracksAfter⟩ := push_tracks tracks value word evaluates
  rw [code, Code.exec_simple goes]
  exact advance_agrees fuel tracksAfter

theorem halt_agrees (tracks : Tracks inputs config state) :
    Agrees (Tracks inputs) answer (config.finish (.halt config.stack))
      ((code halt).exec (meaning inner) fuel state) := by
  have guard := guard_exec fuel tracks (.isEmpty .stack) .emptyStackOnHalt _
    (code [.simple (.answer .ok (.element .stack last))]) (stack_is_empty inner tracks)
  change (code halt).exec (meaning inner) fuel state = .returned (answer (.halt config.stack))
  rw [halt, code, guard]
  cases shape : config.stack with
  | nil => rfl
  | cons top stack =>
      have elements : state.scope .stack = some (.list (elementsOf stack ++ [top.toInt])) := by
        rw [tracks.stack, shape, elements_of_cons]
      have selected : eval (callHelper inner state.helpers) (.element .stack last) state.scope =
          .ok (.int top.toInt, state.scope) :=
        eval_element elements rfl (element_last _ _)
      have answered : (meaning inner).stmt (.answer .ok (.element .stack last)) state =
          .returned (answer (.halt (top :: stack))) := by
        simp only [meaning, perform, selected, attempt, Value.toInt, Outcome.and_then_returned]
        rfl
      rw [List.isEmpty_cons, if_neg (by simp), code, Code.exec_simple_returned answered]

theorem element_of_inputs (index : Nat) (value : StackMachine.Word)
    (found : inputs[index]? = some value) :
    elementAt (inputs.map Int64.toInt) index = .ok value.toInt := by
  have inside : index < inputs.length := (List.getElem?_eq_some_iff.mp found).1
  have notNegative : ¬(index : Int) < 0 := by omega
  have place : position (inputs.map Int64.toInt).length index = .ok index := by
    simp only [position, if_neg notNegative, List.length_map]
    rw [if_pos ⟨by omega, by omega⟩]
    rfl
  rw [elementAt, place]
  simp [Except.bind, found]

theorem inputs_length (inner : Calls) (tracks : Tracks inputs config state) :
    eval (callHelper inner helpers) (.length .xs) state.scope =
      .ok (.int inputs.length, state.scope) := by
  rw [eval_length tracks.xs (call_len inner _), List.length_map]

theorem load_cyclic_agrees (tracks : Tracks inputs config state) (index : StackMachine.Word) :
    Agrees (Tracks inputs) answer
      (match InputMode.cyclic.fetch? inputs index with
      | some value => config.advance (value :: config.stack)
      | none => config.finish (.fault .invalidInputIndex))
      ((code (loadInput index .cyclic (config.pc + 1))).exec (meaning inner) fuel state) := by
  let loaded : Expr := .element .xs (.arith .mod (.int index.toInt) (.length .xs))
  let rest : List Stmt := [.simple (.append .stack loaded), .simple (setPc (config.pc + 1))]
  have empty : eval (callHelper inner helpers) (.isEmpty .xs) state.scope =
      .ok (.ofBool inputs.isEmpty, state.scope) := by
    rw [eval_is_empty tracks.xs, List.isEmpty_map]
  have guard :
      (code (loadInput index .cyclic (config.pc + 1))).exec (meaning inner) fuel state = _ :=
    guard_exec fuel tracks (.isEmpty .xs) .invalidInputIndex _ (code rest) empty
  rw [guard]
  by_cases none : inputs = []
  · subst none
    rfl
  · obtain ⟨position, value, remainder, found, fetched⟩ :=
      InputMode.fetch_cyclic index none
    have positive : 0 < inputs.length := List.length_pos_iff.mpr none
    have operated : operate .mod index.toInt inputs.length = .ok (position : Int) := by
      rw [operate, if_neg (by omega), Int.fmod_eq_emod_of_nonneg _ (by omega), remainder]
    have evaluates : eval (callHelper inner helpers) loaded state.scope =
        .ok (.int value.toInt, state.scope) :=
      eval_element tracks.xs (eval_arith rfl (inputs_length inner tracks) operated)
        (element_of_inputs position _ found)
    rw [fetched, if_neg (by simpa using none)]
    exact push_agrees fuel tracks loaded _ evaluates

theorem load_direct_agrees (tracks : Tracks inputs config state) (index : StackMachine.Word) :
    Agrees (Tracks inputs) answer
      (match InputMode.direct.fetch? inputs index with
      | some value => config.advance (value :: config.stack)
      | none => config.finish (.fault .invalidInputIndex))
      ((code (loadInput index .direct (config.pc + 1))).exec (meaning inner) fuel state) := by
  by_cases negative : index < 0
  · rw [InputMode.fetch_direct_negative negative, loadInput, if_pos negative]
    rfl
  · have above := Word.to_int_nonneg negative
    let loaded : Expr := .element .xs (.int index.toInt)
    let rest : List Stmt := [.simple (.append .stack loaded), .simple (setPc (config.pc + 1))]
    have tested : eval (callHelper inner helpers) (.compare .ge (.int index.toInt) (.length .xs))
        state.scope = .ok (.ofBool (index.toInt ≥ inputs.length), state.scope) :=
      eval_compare _ rfl (inputs_length inner tracks)
    have guard := guard_exec fuel tracks _ .invalidInputIndex _ (code rest) tested
    have shape : code (loadInput index .direct (config.pc + 1)) =
        .branch (.compare .ge (.int index.toInt) (.length .xs))
          (rowCode [fail .invalidInputIndex]) .done (code rest) := by
      rw [loadInput, if_neg negative]
      rfl
    rw [shape, guard]
    by_cases outside : index.toInt ≥ inputs.length
    · rw [InputMode.fetch_direct_outside (Or.inr outside), if_pos (decide_eq_true outside)]
      rfl
    · obtain ⟨position, value, positionIs, found, fetched⟩ :=
        InputMode.fetch_direct above (Int.not_le.mp outside)
      have evaluates : eval (callHelper inner helpers) loaded state.scope =
          .ok (.int value.toInt, state.scope) := by
        refine eval_element tracks.xs rfl ?_
        rw [positionIs]
        exact element_of_inputs position _ found
      rw [fetched, if_neg fun holds => outside (of_decide_eq_true holds)]
      exact push_agrees fuel tracks loaded _ evaluates

theorem guarded_agrees (program : Program) (tracks : Tracks inputs config state) (instr : Instr)
    (depthIs : instr.opcode.requiredDepth = 1 ∨ instr.opcode.requiredDepth = 2)
    (rest : List Stmt)
    (agrees : instr.opcode.requiredDepth ≤ config.stack.length →
      Agrees (Tracks inputs) answer (program.execute inputs instr config)
        ((code rest).exec (meaning inner) fuel state)) :
    Agrees (Tracks inputs) answer (program.execute inputs instr config)
      ((code (requireDepth instr.opcode.requiredDepth :: rest)).exec (meaning inner) fuel state) := by
  rw [require_depth_exec fuel inner tracks _ depthIs]
  by_cases shallow : config.stack.length < instr.opcode.requiredDepth
  · rw [if_pos shallow, Program.execute_shallow instr shallow]
    rfl
  · rw [if_neg shallow]
    exact agrees (Nat.not_lt.mp shallow)

theorem divisor_check_exec (tracks : Tracks inputs config state) (op : BinaryOp)
    (left right : StackMachine.Word) (rightIs : state.scope .b = some (.int right.toInt))
    (rest : List Stmt) :
    (code (divisorCheck op ++ rest)).exec (meaning inner) fuel state =
      if (op.eval? left right).isNone then .returned (answer (.fault .divOrModByZero))
      else (code rest).exec (meaning inner) fuel state := by
  have zero : eval (callHelper inner helpers) (.compare .eq (.var .b) (.int 0)) state.scope =
      .ok (.ofBool (right == 0), state.scope) := by
    rw [Word.beq_to_int]
    exact eval_compare _ (eval_var rightIs) rfl
  have guard := guard_exec fuel tracks _ .divOrModByZero _ (code rest) zero
  cases op with
  | div | mod =>
      refine Eq.trans guard ?_
      by_cases isZero : right = 0 <;> simp [BinaryOp.eval?, isZero]
  | add | sub | mul | eq | gt | lt => rfl

theorem operands_exec (inner : Calls) (tracks : Tracks inputs config state) (op : BinaryOp)
    (right left : StackMachine.Word) (stack : List StackMachine.Word)
    (shape : config.stack = right :: left :: stack) (rest : List Stmt) :
    ∃ after, Tracks inputs { config with stack := stack } after ∧
      after.scope .a = some (.int left.toInt) ∧ after.scope .b = some (.int right.toInt) ∧
      (code ([.simple (.assign .b (.removeLast .stack)), .simple (.assign .a (.removeLast .stack))] ++
        divisorCheck op ++ rest)).exec (meaning inner) fuel state =
          if (op.eval? left right).isNone then .returned (answer (.fault .divOrModByZero))
          else (code rest).exec (meaning inner) fuel after := by
  obtain ⟨first, popRight, tracksFirst, rightIs, -⟩ :=
    pop_tracks tracks right (left :: stack) shape .b (by decide)
  obtain ⟨second, popLeft, tracksSecond, leftIs, kept⟩ :=
    pop_tracks tracksFirst left stack rfl .a (by decide)
  have rightKept : second.scope .b = some (.int right.toInt) := by
    rw [kept .b (by decide) (by decide), rightIs]
  refine ⟨second, tracksSecond, leftIs, rightKept, ?_⟩
  rw [← divisor_check_exec fuel tracksSecond op left right rightKept]
  exact (Code.exec_simple popRight).trans (Code.exec_simple popLeft)

theorem binary_agrees (program : Program) (tracks : Tracks inputs config state) (op : BinaryOp)
    (reached : DividesOn (.binary op) config.stack → inner = builtin) :
    Agrees (Tracks inputs) answer (program.execute inputs (.binary op) config)
      ((code (binary op (config.pc + 1))).exec (meaning inner) fuel state) := by
  refine guarded_agrees fuel program tracks (.binary op) (Or.inr rfl) _ fun deep => ?_
  obtain ⟨right, left, stack, shape⟩ := two_entries deep
  obtain ⟨after, tracksAfter, leftIs, rightIs, goes⟩ :=
    operands_exec fuel inner tracks op right left stack shape
      [.simple (.append .stack (binaryValue op)), .simple (setPc (config.pc + 1))]
  rw [Program.execute_binary op shape]
  change Agrees _ _ _ (Code.exec (meaning inner) fuel (code (_ ++ divisorCheck op ++ _)) state)
  rw [goes]
  cases evaluated : op.eval? left right with
  | none => rfl
  | some value =>
      have reachedHere : op = .div ∨ op = .mod → inner = builtin := by
        intro division
        apply reached
        rw [shape]
        refine .intro op right left stack division fun zero => ?_
        rw [(op.eval_none_iff left right).mpr ⟨division, zero⟩] at evaluated
        cases evaluated
      exact push_agrees fuel tracksAfter _ _
        (eval_binary_value inner op left right value reachedHere leftIs rightIs evaluated)

/-- Where the built-in functions are out of reach, a division raises an exception. -/
theorem division_fails (tracks : Tracks inputs config state) {instr : Instr}
    (divides : DividesOn instr config.stack) (program : Program) :
    (code (body (.ofInstr program config.pc instr)).1).exec (meaning nowhere) fuel state =
      .failed .type := by
  generalize shape : config.stack = found at divides
  obtain ⟨op, right, left, stack, division, nonzero⟩ := divides
  have deep : ¬config.stack.length < 2 := by simp [shape]
  obtain ⟨after, tracksAfter, leftIs, rightIs, goes⟩ :=
    operands_exec fuel nowhere tracks op right left stack shape
      [.simple (.append .stack (binaryValue op)), .simple (setPc (config.pc + 1))]
  have defined : (op.eval? left right).isNone = false := by
    rw [Option.isNone_eq_false_iff, Option.isSome_iff_ne_none]
    exact fun none => nonzero ((op.eval_none_iff left right).mp none).2
  have failed : (meaning nowhere).stmt (.append .stack (binaryValue op)) after = .failed .type := by
    have helpers := tracksAfter.helpers
    simp only [meaning, helpers, perform, attempt,
      eval_binary_nowhere op division _ _ leftIs rightIs, Outcome.and_then_failed]
  have guarded := require_depth_exec fuel nowhere tracks 2 (.inr rfl)
    ([.simple (.assign .b (.removeLast .stack)), .simple (.assign .a (.removeLast .stack))] ++
      divisorCheck op ++
        [.simple (.append .stack (binaryValue op)), .simple (setPc (config.pc + 1))])
  rw [if_neg deep, goes, defined, if_neg Bool.false_ne_true, code,
    Code.exec_simple_failed failed] at guarded
  exact guarded

theorem unary_agrees (program : Program) (tracks : Tracks inputs config state) (op : UnaryOp) :
    Agrees (Tracks inputs) answer (program.execute inputs (.unary op) config)
      ((code (unary op (config.pc + 1))).exec (meaning inner) fuel state) := by
  refine guarded_agrees fuel program tracks (.unary op) (Or.inl rfl) _ fun deep => ?_
  obtain ⟨value, stack, shape⟩ := List.exists_cons_of_length_pos deep
  obtain ⟨after, popped, tracksAfter, valueIs, -⟩ :=
    pop_tracks tracks value stack shape .a (by decide)
  rw [Program.execute_unary op shape, code, Code.exec_simple popped]
  exact push_agrees fuel tracksAfter _ _ (eval_unary_value inner op value valueIs)

theorem positions_of_two (elements : List Int) (lower upper : Int) :
    position (elements ++ [lower, upper]).length (-1) = .ok (elements.length + 1) ∧
      position (elements ++ [lower, upper]).length (-2) = .ok elements.length := by
  have length : (elements ++ [lower, upper]).length = elements.length + 2 := by simp
  rw [length]
  exact ⟨position_from_end _ 1 Nat.one_pos (by omega), position_from_end _ 2 Nat.two_pos (by omega)⟩

/-- The exchange reads both elements before it writes either. -/
theorem exchange_tracks (tracks : Tracks inputs config state) (upper lower : StackMachine.Word)
    (stack : List StackMachine.Word) (shape : config.stack = upper :: lower :: stack) :
    ∃ after, (meaning inner).stmt (stackEffect .swap) state = .next after ∧
      Tracks inputs { config with stack := lower :: upper :: stack } after := by
  let base := elementsOf stack
  let scope := state.scope.set .stack (.list (elementsOf (lower :: upper :: stack)))
  have elements : state.scope .stack = some (.list (base ++ [lower.toInt, upper.toInt])) := by
    rw [tracks.stack, shape, elements_of_cons, elements_of_cons, List.append_assoc]
    rfl
  have exchanged : elementsOf (lower :: upper :: stack) = base ++ [upper.toInt, lower.toInt] := by
    rw [elements_of_cons, elements_of_cons, List.append_assoc]
    rfl
  have places := fun lower upper => positions_of_two base lower upper
  have readLower : elementAt (base ++ [lower.toInt, upper.toInt]) (-2) = .ok lower.toInt := by
    rw [elementAt, (places _ _).2]
    simp [Except.bind]
  have readUpper : elementAt (base ++ [lower.toInt, upper.toInt]) (-1) = .ok upper.toInt := by
    rw [elementAt, (places _ _).1]
    simp [Except.bind]
  have writeLast : setElement (base ++ [lower.toInt, upper.toInt]) (-1) lower.toInt =
      .ok (base ++ [lower.toInt, lower.toInt]) := by
    rw [setElement, (places _ _).1]
    simp [Except.map]
  have writeOther : setElement (base ++ [lower.toInt, lower.toInt]) (-2) upper.toInt =
      .ok (base ++ [upper.toInt, lower.toInt]) := by
    rw [setElement, (places _ _).2]
    simp [Except.map]
  refine ⟨{ state with scope := scope }, ?_, tracks.helpers, tracks.xs, rfl, tracks.pc,
    tracks.steps⟩
  simp only [meaning, stackEffect, perform, Scope.value, elements, Except.bind, Value.elements,
    attempt, last, secondLast, eval, bind, Value.toInt, readLower, readUpper, writeLast,
    writeOther, scope, exchanged, Outcome.and_then_next]

theorem discard_tracks (tracks : Tracks inputs config state) (top : StackMachine.Word)
    (stack : List StackMachine.Word) (shape : config.stack = top :: stack) :
    ∃ after, (meaning inner).stmt (stackEffect .pop) state = .next after ∧
      Tracks inputs { config with stack := stack } after := by
  let scope := state.scope.set .stack (.list (elementsOf stack))
  have elements : state.scope .stack = some (.list (elementsOf stack ++ [top.toInt])) := by
    rw [tracks.stack, shape, elements_of_cons]
  refine ⟨{ state with scope := scope }, ?_, tracks.helpers, tracks.xs, rfl, tracks.pc,
    tracks.steps⟩
  simp only [meaning, stackEffect, perform, eval, Scope.value, elements, Value.elements, bind,
    Except.bind, element_last, attempt, Outcome.and_then_next, List.dropLast_concat, scope]

theorem stack_agrees (program : Program) (tracks : Tracks inputs config state) (op : StackOp) :
    Agrees (Tracks inputs) answer (program.execute inputs (.stack op) config)
      ((code (stack op (config.pc + 1))).exec (meaning inner) fuel state) := by
  refine guarded_agrees fuel program tracks (.stack op) (Opcode.stack_depth op) _
    fun deep => ?_
  cases op with
  | dup =>
      obtain ⟨top, stack, shape⟩ := List.exists_cons_of_length_pos deep
      have elements : state.scope .stack = some (.list (elementsOf stack ++ [top.toInt])) := by
        rw [tracks.stack, shape, elements_of_cons]
      have selected : eval (callHelper inner helpers) (.element .stack last) state.scope =
          .ok (.int top.toInt, state.scope) :=
        eval_element elements rfl (element_last _ _)
      have agrees := push_agrees fuel tracks (.element .stack last) top selected
      rw [Program.execute_dup shape]
      rw [shape] at agrees
      exact agrees
  | swap =>
      obtain ⟨upper, lower, stack, shape⟩ := two_entries deep
      obtain ⟨after, exchanged, tracksAfter⟩ := exchange_tracks tracks upper lower stack shape
      rw [Program.execute_swap shape, code, Code.exec_simple exchanged]
      exact advance_agrees fuel tracksAfter
  | pop =>
      obtain ⟨top, stack, shape⟩ := List.exists_cons_of_length_pos deep
      obtain ⟨after, discarded, tracksAfter⟩ := discard_tracks tracks top stack shape
      rw [Program.execute_pop shape, code, Code.exec_simple discarded]
      exact advance_agrees fuel tracksAfter

theorem leaving_block (outcome : Ran State) :
    outcome.leaving ((meaning inner).leave state) = outcome := by
  cases outcome <;> rfl

theorem jump_agrees (inner : Calls) (program : Program) (stack : List StackMachine.Word)
    (tracks : Tracks inputs { config with stack := stack } state) (target : StackMachine.Word) :
    Agrees (Tracks inputs) answer (program.takeJump target config stack)
      ((rowCode [jump ((program.jumpMode.resolve? program.length target).map fun position =>
        (position : Int))]).exec (meaning inner) fuel state) := by
  rw [Program.takeJump]
  cases program.jumpMode.resolve? program.length target with
  | none => rfl
  | some position =>
      obtain ⟨after, goes, tracksAfter⟩ := set_pc_tracks tracks position
      refine ⟨after, ?_, tracksAfter⟩
      exact Code.exec_simple goes

theorem branch_agrees (program : Program) (tracks : Tracks inputs config state)
    (condition : Condition) (target : StackMachine.Word) :
    Agrees (Tracks inputs) answer (program.execute inputs (.branch condition target) config)
      ((code (branch condition ((program.jumpMode.resolve? program.length target).map
        fun position => (position : Int)) (config.pc + 1))).exec (meaning inner) fuel state) := by
  refine guarded_agrees fuel program tracks (.branch condition target) (Or.inl rfl) _ fun deep => ?_
  obtain ⟨value, stack, shape⟩ := List.exists_cons_of_length_pos deep
  obtain ⟨after, popped, tracksAfter, valueIs, -⟩ :=
    pop_tracks tracks value stack shape .c (by decide)
  have tested : (meaning inner).test (conditionTest condition) after =
      .ok (condition.holds value, after) :=
    test_of_eval tracksAfter (eval_condition_test condition value valueIs)
  have jumps := jump_agrees fuel inner program stack tracksAfter target
  rw [Program.execute_branch condition target shape]
  cases resolved : program.jumpMode.resolve? program.length target with
  | none =>
      have missing : program.takeJump target config stack =
          config.finish (.fault .badJumpTarget) := by
        rw [Program.takeJump, resolved]
      have holds : eval (callHelper inner helpers) (conditionTest condition) after.scope =
          .ok (.ofBool (condition.holds value), after.scope) :=
        eval_condition_test condition value valueIs
      have guard := guard_exec fuel tracksAfter (conditionTest condition) .badJumpTarget _
        (code [.simple (setPc (config.pc + 1))]) holds
      change Agrees _ _ _ ((code (.simple (.assign .c (.removeLast .stack)) ::
        [.ifThen (conditionTest condition) [jump none], .simple (setPc (config.pc + 1))])).exec
          (meaning inner) fuel state)
      rw [missing, code, Code.exec_simple popped, code, jump, guard]
      cases condition.holds value with
      | true => rfl
      | false => exact advance_agrees fuel tracksAfter
  | some position =>
      rw [resolved] at jumps
      change Agrees _ _ _ ((code (.simple (.assign .c (.removeLast .stack)) ::
        [.ifElse (conditionTest condition) [jump (some (position : Int))]
          [setPc (config.pc + 1)]])).exec (meaning inner) fuel state)
      rw [code, Code.exec_simple popped, code, code, Code.exec_last_branch tested, leaving_block]
      cases condition.holds value with
      | true => exact jumps
      | false => exact advance_agrees fuel tracksAfter

theorem execute_agrees (program : Program) (tracks : Tracks inputs config state) (instr : Instr)
    (reached : DividesOn instr config.stack → inner = builtin) :
    Agrees (Tracks inputs) answer (program.execute inputs instr config)
      ((code (body (.ofInstr program config.pc instr)).1).exec (meaning inner) fuel state) := by
  cases instr with
  | halt => exact halt_agrees fuel tracks
  | pushConst value => exact push_agrees fuel tracks (.int value.toInt) value rfl
  | loadInput index =>
      change Agrees _ _ _ ((code (loadInput index program.inputMode (config.pc + 1))).exec
        (meaning inner) fuel state)
      rw [Program.execute_load]
      cases program.inputMode with
      | cyclic => exact load_cyclic_agrees fuel tracks index
      | direct => exact load_direct_agrees fuel tracks index
  | binary op => exact binary_agrees fuel program tracks op reached
  | unary op => exact unary_agrees fuel program tracks op
  | stack op => exact stack_agrees fuel program tracks op
  | jump target => exact jump_agrees fuel inner program config.stack tracks target
  | branch condition target => exact branch_agrees fuel program tracks condition target

theorem arm_test_tracks (inner : Calls) (tracks : Tracks inputs config state) (position : Nat) :
    (meaning inner).test (armTest position) state = .ok (decide (config.pc = position), state) := by
  have compared : relate .eq (config.pc : Int) position = decide (config.pc = position) := by
    rw [Bool.eq_iff_iff]
    simp [relate]
  rw [← compared]
  exact test_of_eval tracks (eval_compare _ (eval_var tracks.pc) rfl)

/-- One turn of the loop is one step of the machine. -/
theorem turn_agrees (program : Program) (tracks : Tracks inputs config state)
    (reached : DividesAt program config → inner = builtin) :
    Agrees (Tracks inputs) answer (program.step inputs config)
      (((armsFrom program 0 program.code).exec (meaning inner) fuel state).leaving
        ((meaning inner).leave state)) := by
  have tests := fun pc (_ : pc < program.length) => arm_test_tracks inner tracks pc
  refine chain_agrees program fuel tests (fun _ => rfl) (halt_agrees fuel tracks)
    fun instr found => ?_
  obtain ⟨counted, counts, tracksCounted⟩ := increment_tracks tracks
  rw [leaving_block, armCode, Code.exec_simple counts]
  exact execute_agrees fuel program tracksCounted instr fun divides =>
    reached ⟨instr, found, divides⟩

theorem turn_fails (program : Program) (tracks : Tracks inputs config state)
    (divides : DividesAt program config) :
    ((armsFrom program 0 program.code).exec (meaning nowhere) fuel state).leaving
      ((meaning nowhere).leave state) = .failed .type := by
  obtain ⟨instr, found, divides⟩ := divides
  have tests := fun pc (_ : pc < program.length) => arm_test_tracks nowhere tracks pc
  have within : 0 + program.code.length ≤ program.length := Nat.le_of_eq (Nat.zero_add _)
  obtain ⟨counted, counts, tracksCounted⟩ := increment_tracks tracks
  have taken := exec_arm (armCode program) (code halt) fuel _ tests (fun _ => rfl) program.code
    instr 0 within (Nat.zero_le _) found
  rw [leaving_block, armsFrom, taken, leaving_block, armCode, Code.exec_simple counts]
  exact division_fails fuel tracksCounted divides program

theorem loop_test_tracks (program : Program) (tracks : Tracks inputs config state) :
    (meaning inner).test (loopTest program) state =
      .ok (decide (config.steps < program.budget), state) := by
  have compared : relate .lt (config.steps : Int) program.maxSteps.toInt =
      decide (config.steps < program.budget) := by
    rw [← program.budget_is, relate]
    exact decide_eq_decide.mpr Int.ofNat_lt
  rw [← compared]
  exact test_of_eval tracks (eval_compare _ (eval_var tracks.steps) rfl)

/-- The loop answers if every division of the run finds the functions that it needs. -/
theorem loop_returns (program : Program) (tracks : Tracks inputs .start state)
    (reached : Divides program inputs → inner = builtin) (enough : program.budget < fuel) :
    (loopCode program).exec (meaning inner) fuel state =
      .returned (answer (program.evaluate inputs)) := by
  let related (config : Config) (state : State) : Prop :=
    Tracks inputs config state ∧ program.Reaches inputs config
  apply loop_answers program related fuel
  · exact fun _ _ ⟨tracks, _⟩ => loop_test_tracks program tracks
  · intro config state ⟨tracks, visited⟩ left
    have turned := turn_agrees fuel program tracks fun divides =>
      reached ⟨config, visited, left, divides⟩
    exact turned.after_step fun following after stepped tracksAfter =>
      ⟨tracksAfter, .next config following visited left stepped⟩
  · exact fun state => fail_returns fuel .stepLimit .done
  · exact ⟨tracks, .start⟩
  · exact Nat.zero_add _
  · exact enough

theorem loop_raises (program : Program) (tracks : Tracks inputs .start state)
    (divides : Divides program inputs) (enough : program.budget < fuel) :
    (loopCode program).exec (meaning nowhere) fuel state = .failed .type := by
  obtain ⟨config, visited, left, divides⟩ := divides
  have failed := loop_fails program (Tracks inputs) (DividesAt program) fuel .type
    (fun _ _ tracks => loop_test_tracks program tracks)
    (fun _ _ tracks plain => turn_agrees fuel program tracks fun divides => absurd divides plain)
    (fun _ _ tracks divides => turn_fails fuel program tracks divides)
    config visited left divides fuel state tracks enough
  exact congrArg (Outcome.andThen · _) failed

/-- The body of a rendered function begins on a scope that holds the inputs and nothing else. -/
theorem function_enters (inner : Calls) (program : Program) (scope : Scope)
    (bound : scope .xs = some (.list (inputs.map Int64.toInt))) :
    ∃ started, Tracks inputs .start started ∧
      (functionCode program).exec (meaning inner) fuel ⟨scope, []⟩ =
        (loopCode program).exec (meaning inner) fuel started :=
  ⟨⟨((scope.set .stack (.list [])).set .pc (.int 0)).set .steps (.int 0), helpers⟩,
    ⟨rfl, bound, rfl, rfl, rfl⟩, rfl⟩

/-- For every program, valid name and inputs, the rendered text answers with the status and value
of the run: it terminates and raises nothing. There are two exceptions. One valid name is not the
name of any function, because Python reserves it without making it a keyword, and under that name
the text is refused. Another one hides the built-in functions from the functions inside, and under
that name the text raises an exception just for the runs that divide. -/
theorem python_answers (program : Program) (name : Text) (inputs : List StackMachine.Word)
    (valid : Language.isFunctionName .python name = true) :
    let called (fuel : Nat) : Ran State :=
      call fuel (Language.python.render name program) name [.list (inputs.map Int64.toInt)]
    (name ≠ debugConstant → (name = builtinsName → ¬Divides program inputs) →
        Ends called (.returned (.pair (program.evaluate inputs).status.code
          (program.evaluate inputs).value.toInt))) ∧
      (name = debugConstant → Ends called (.failed .unreadable)) ∧
      (name = builtinsName → Divides program inputs → Ends called (.failed .type)) := by
  intro called
  have entered (fuel : Nat) (ordinary : name ≠ debugConstant) :
      ∃ started, Tracks inputs .start started ∧
        called fuel = (loopCode program).exec (meaning (innerCalls name)) fuel started := by
    obtain ⟨started, tracks, entered⟩ := function_enters fuel (innerCalls name) program
      (Scope.empty.set .xs (.list (inputs.map Int64.toInt))) rfl
    refine ⟨started, tracks, ?_⟩
    rw [← entered]
    simp only [called, call, read_rendered name program valid ordinary, programCode, if_true,
      Scope.bind?, Option.map_some]
  refine ⟨fun ordinary undivided => ?_, fun debug => ?_, fun hidden divides => ?_⟩
  · refine ⟨program.budget + 1, fun fuel enough => ?_⟩
    obtain ⟨started, tracks, entered⟩ := entered fuel ordinary
    rw [entered]
    exact loop_returns fuel program tracks
      (fun divides => if_neg fun hidden => undivided hidden divides) enough
  · refine ⟨0, fun fuel _ => ?_⟩
    subst debug
    simp only [called, call, read_debug program valid]
  · refine ⟨program.budget + 1, fun fuel enough => ?_⟩
    obtain ⟨started, tracks, entered⟩ := entered fuel (by rw [hidden]; decide)
    rw [entered, innerCalls, if_pos hidden]
    exact loop_raises fuel program tracks divides enough

/-- The least word divided by minus one, under an ordinary name and under the two exceptional
ones. -/
theorem python_answers_least_quotient :
    let program : Program :=
      ⟨[.pushConst Int64.minValue, .loadInput (-1), .binary .div, .halt], 64, .error, .cyclic,
        by decide, by decide⟩
    let called (name : Text) (fuel : Nat) : Ran State :=
      call fuel (Language.python.render name program) name [.list [3, -1]]
    Ends (called "f") (.returned (.pair 0 (-9223372036854775808))) ∧
      Ends (called "__debug__") (.failed .unreadable) ∧
      Ends (called "__builtins__") (.failed .type) := by
  intro program called
  have ran : program.evaluate [3, -1] = ⟨.ok, Int64.minValue⟩ := by decide +kernel
  have visited : program.Reaches [3, -1] ⟨2, [-1, Int64.minValue], 2⟩ := by
    refine .next ⟨1, [Int64.minValue], 1⟩ _ (.next .start _ .start ?_ ?_) ?_ ?_ <;> decide +kernel
  have divides : Divides program [3, -1] :=
    ⟨_, visited, by decide +kernel, _, rfl,
      .intro .div (-1) Int64.minValue [] (.inl rfl) (by decide)⟩
  have answered := (python_answers program "f" [3, -1] (by decide +kernel)).1
    (by decide) fun hidden => absurd hidden (by decide)
  have refused := (python_answers program "__debug__" [3, -1] (by decide +kernel)).2.1 rfl
  have raised := (python_answers program "__builtins__" [3, -1] (by decide +kernel)).2.2 rfl divides
  rw [ran] at answered
  exact ⟨answered, refused, raised⟩

end StackMachine.Python

import StackMachine.Proofs.Rust.Arithmetic
import StackMachine.Proofs.Rust.Reading

/-!
# Rendered Rust answers what the machine answers

While the loop runs, the vector is the stack of the machine from the bottom up. Every instruction that
takes entries off checks the depth first, so nothing is missing when an entry is unwrapped and nothing
goes below zero when a position is computed; the budget keeps the counted steps within an `i64`.
-/

namespace StackMachine.Rust

open StackMachine.Render StackMachine.Render.Rust StackMachine.Source

set_option autoImplicit false

def frame (inputs stack : List StackMachine.Word) (pc steps : Nat) : Scope :=
  [(.steps, ⟨true, .i64 (Int64.ofInt steps)⟩), (.pc, ⟨true, .usize (UInt64.ofNat pc)⟩),
    (.stack, ⟨true, .list stack.reverse⟩), (.xs, ⟨false, .list inputs⟩)]

/-- The variables that an arm may bind for itself. -/
def IsTemporary (name : Var) : Prop :=
  name ≠ .xs ∧ name ≠ .stack ∧ name ≠ .pc ∧ name ≠ .steps

instance (name : Var) : Decidable (IsTemporary name) :=
  inferInstanceAs (Decidable (name ≠ .xs ∧ name ≠ .stack ∧ name ≠ .pc ∧ name ≠ .steps))

def AllTemporary (locals : Scope) : Prop := ∀ entry ∈ locals, IsTemporary entry.1

/-- The variables hold the configuration, behind the ones that the running arm has bound. -/
structure Tracks (inputs : List StackMachine.Word) (locals : Scope) (config : Config)
    (scope : Scope) : Prop where
  temporary : AllTemporary locals
  holds : scope = locals ++ frame inputs config.stack config.pc config.steps

def answer (result : Result) : Int64 × Int64 := (Int64.ofInt result.status.code, result.value)

section

variable {locals : Scope} {inputs stack : List StackMachine.Word} {pc steps : Nat}

theorem misses_kept (temporary : AllTemporary locals) (name : Var) (kept : ¬IsTemporary name) :
    Scope.Misses locals name := by
  intro entry member same
  exact kept (same ▸ temporary entry member)

theorem find_xs (temporary : AllTemporary locals) :
    (locals ++ frame inputs stack pc steps).find .xs = some ⟨false, .list inputs⟩ := by
  rw [Scope.find_past _ _ _ (misses_kept temporary .xs (by decide))]
  rfl

theorem find_stack (temporary : AllTemporary locals) :
    (locals ++ frame inputs stack pc steps).find .stack = some ⟨true, .list stack.reverse⟩ := by
  rw [Scope.find_past _ _ _ (misses_kept temporary .stack (by decide))]
  rfl

theorem find_pc (temporary : AllTemporary locals) :
    (locals ++ frame inputs stack pc steps).find .pc =
      some ⟨true, .usize (UInt64.ofNat pc)⟩ := by
  rw [Scope.find_past _ _ _ (misses_kept temporary .pc (by decide))]
  rfl

theorem find_steps (temporary : AllTemporary locals) :
    (locals ++ frame inputs stack pc steps).find .steps =
      some ⟨true, .i64 (Int64.ofInt steps)⟩ := by
  rw [Scope.find_past _ _ _ (misses_kept temporary .steps (by decide))]
  rfl

theorem change_stack (temporary : AllTemporary locals) (other : List StackMachine.Word) :
    change (locals ++ frame inputs stack pc steps) .stack (.list other.reverse) =
      .ok (locals ++ frame inputs other pc steps) := by
  rw [change_of_find (find_stack temporary),
    Scope.set_past _ _ _ _ (misses_kept temporary .stack (by decide))]
  rfl

theorem change_pc (temporary : AllTemporary locals) (other : Nat) :
    change (locals ++ frame inputs stack pc steps) .pc (.usize (UInt64.ofNat other)) =
      .ok (locals ++ frame inputs stack other steps) := by
  rw [change_of_find (find_pc temporary),
    Scope.set_past _ _ _ _ (misses_kept temporary .pc (by decide))]
  rfl

theorem change_steps (temporary : AllTemporary locals) (other : Nat) :
    change (locals ++ frame inputs stack pc steps) .steps (.i64 (Int64.ofInt other)) =
      .ok (locals ++ frame inputs stack pc other) := by
  rw [change_of_find (find_steps temporary),
    Scope.set_past _ _ _ _ (misses_kept temporary .steps (by decide))]
  rfl

end

section

variable {scope middle after : Scope} {name : Var} {value : Expr} {result : Value}

theorem perform_bind (evaluates : eval value scope = .ok (result, after))
    (copies : result.copied = .ok result) :
    meaning.stmt (.plain (.bind name value)) scope = .next ((name, ⟨false, result⟩) :: after) := by
  simp only [meaning, perform, evaluates, attempt, copies]

theorem perform_assign {before kept : Value} {isMutable : Bool} {changed : Scope}
    (found : scope.find name = some ⟨isMutable, before⟩)
    (evaluates : eval value scope = .ok (result, after)) (fits : before.assigned result = .ok kept)
    (changes : change after name kept = .ok changed) :
    meaning.stmt (.plain (.assign name value)) scope = .next changed := by
  simp only [meaning, perform, value_of_find found, attempt, evaluates, fits, changes]

theorem perform_push {word : StackMachine.Word} {elements : List Int64} {changed : Scope}
    (evaluates : eval value scope = .ok (result, after)) (counts : result.signed = .ok word)
    {isMutable : Bool} (found : after.find name = some ⟨isMutable, .list elements⟩)
    (changes : change after name (.list (elements ++ [word])) = .ok changed) :
    meaning.stmt (.plain (.push name value)) scope = .next changed := by
  simp only [meaning, perform, evaluates, attempt, counts, value_of_find found, Except.bind,
    Value.elements, changes]

theorem perform_swap {first second : Expr} {secondResult : Value} {place other : UInt64}
    {elements swapped : List Int64} {isMutable : Bool} {changed : Scope}
    (firstIs : eval first scope = .ok (result, middle)) (counts : result.unsigned = .ok place)
    (secondIs : eval second middle = .ok (secondResult, after))
    (countsOther : secondResult.unsigned = .ok other)
    (found : after.find name = some ⟨isMutable, .list elements⟩)
    (swaps : exchanged elements place other = .ok swapped)
    (changes : change after name (.list swapped) = .ok changed) :
    meaning.stmt (.plain (.swap name first second)) scope = .next changed := by
  simp only [meaning, perform, firstIs, attempt, counts, secondIs, countsOther,
    value_of_find found, Except.bind, Value.elements, swaps, changes]

theorem perform_answer {status : Status} {word : StackMachine.Word}
    (evaluates : eval value scope = .ok (result, after)) (counts : result.signed = .ok word) :
    meaning.stmt (.plain (.answer status value)) scope =
      .returned (Int64.ofInt status.code, word) := by
  simp only [meaning, perform, evaluates, attempt, counts]
  rfl

end

variable {inputs : List StackMachine.Word} {locals scope : Scope} {config : Config}

theorem bind_tracks (tracks : Tracks inputs locals config scope) (name : Var) (value : Value)
    (temporary : IsTemporary name) :
    Tracks inputs ((name, ⟨false, value⟩) :: locals) config ((name, ⟨false, value⟩) :: scope) := by
  obtain ⟨allTemporary, rfl⟩ := tracks
  refine ⟨fun entry member => ?_, rfl⟩
  rcases List.mem_cons.mp member with here | later
  · rw [here]
    exact temporary
  · exact allTemporary entry later

theorem set_pc_tracks (tracks : Tracks inputs locals config scope) (position : Nat)
    (small : position < 2 ^ 64) :
    ∃ after, meaning.stmt (.plain (setPc position)) scope = .next after ∧
      Tracks inputs locals { config with pc := position } after := by
  obtain ⟨temporary, rfl⟩ := tracks
  have assigned : (Value.usize (UInt64.ofNat config.pc)).assigned (.literal position) =
      .ok (.usize (UInt64.ofNat position)) := by
    rw [Value.assigned, unsigned_literal position small]
    rfl
  exact ⟨_, perform_assign (find_pc temporary) rfl assigned (change_pc temporary position),
    temporary, rfl⟩

/-- Counting a step cannot overflow below the greatest budget. -/
theorem increment_tracks (tracks : Tracks inputs locals config scope)
    (small : config.steps + 1 < 2 ^ 63) :
    ∃ after, meaning.stmt (.plain (.increment .steps)) scope = .next after ∧
      Tracks inputs locals { config with steps := config.steps + 1 } after := by
  obtain ⟨temporary, rfl⟩ := tracks
  have stepsIs : (Int64.ofInt config.steps).toInt = config.steps :=
    Int64.toInt_ofInt_of_le (by omega) (by omega)
  have counted : (Value.i64 (Int64.ofInt config.steps)).incremented =
      .ok (.i64 (Int64.ofInt ((config.steps + 1 : Nat) : Int))) := by
    rw [Value.incremented, stepsIs, if_pos (by omega)]
    rfl
  refine ⟨_, ?_, temporary, rfl⟩
  simp only [meaning, perform, value_of_find (find_steps temporary), attempt, counted,
    change_steps temporary]

theorem push_tracks (tracks : Tracks inputs locals config scope) (value : Expr) (result : Value)
    (word : StackMachine.Word) (evaluates : eval value scope = .ok (result, scope))
    (counts : result.signed = .ok word) :
    ∃ after, meaning.stmt (.plain (.push .stack value)) scope = .next after ∧
      Tracks inputs locals { config with stack := word :: config.stack } after := by
  obtain ⟨temporary, rfl⟩ := tracks
  refine ⟨_, perform_push evaluates counts (find_stack temporary) ?_, temporary, rfl⟩
  rw [← List.reverse_cons]
  exact change_stack temporary _

theorem eval_pop (tracks : Tracks inputs locals config scope) (top : StackMachine.Word)
    (stack : List StackMachine.Word) (shape : config.stack = top :: stack) :
    ∃ after, eval (.pop .stack) scope = .ok (.optional (some top), after) ∧
      Tracks inputs locals { config with stack := stack } after := by
  obtain ⟨temporary, rfl⟩ := tracks
  have last : config.stack.reverse.getLast? = some top := by simp [shape]
  have others : config.stack.reverse.dropLast = stack.reverse := by simp [shape]
  refine ⟨_, ?_, temporary, rfl⟩
  simp only [eval, value_of_find (find_stack temporary), bind, Except.bind, Value.elements, last,
    others, change_stack temporary]

/-- An entry that the depth check has found is there to be unwrapped. -/
theorem pop_tracks (tracks : Tracks inputs locals config scope) (top : StackMachine.Word)
    (stack : List StackMachine.Word) (shape : config.stack = top :: stack) (name : Var)
    (temporary : IsTemporary name) :
    ∃ after, meaning.stmt (.plain (.bind name pop)) scope = .next after ∧
      Tracks inputs ((name, ⟨false, .i64 top⟩) :: locals) { config with stack := stack } after := by
  obtain ⟨popped, evaluates, tracksPopped⟩ := eval_pop tracks top stack shape
  have unwrapped : eval pop scope = .ok (.i64 top, popped) := by
    rw [pop, eval, evaluates]
    rfl
  exact ⟨_, perform_bind unwrapped rfl, bind_tracks tracksPopped name _ temporary⟩

theorem discard_tracks (tracks : Tracks inputs locals config scope) (top : StackMachine.Word)
    (stack : List StackMachine.Word) (shape : config.stack = top :: stack) :
    ∃ after, meaning.stmt (.plain (.discard (.pop .stack))) scope = .next after ∧
      Tracks inputs locals { config with stack := stack } after := by
  obtain ⟨popped, evaluates, tracksPopped⟩ := eval_pop tracks top stack shape
  refine ⟨popped, ?_, tracksPopped⟩
  simp only [meaning, perform, evaluates, attempt]

theorem stack_is_empty (tracks : Tracks inputs locals config scope) :
    eval (.isEmpty .stack) scope = .ok (.truth config.stack.isEmpty, scope) := by
  obtain ⟨temporary, rfl⟩ := tracks
  rw [eval_is_empty (find_stack temporary), List.isEmpty_reverse]

theorem stack_length (tracks : Tracks inputs locals config scope) :
    eval (.length .stack) scope =
      .ok (.usize (UInt64.ofNat config.stack.length), scope) := by
  obtain ⟨temporary, rfl⟩ := tracks
  rw [eval_length (find_stack temporary), List.length_reverse]

theorem element_at (elements : List StackMachine.Word) (position : Nat) (word : StackMachine.Word)
    (small : position < 2 ^ 64) (found : elements[position]? = some word) :
    elementAt elements (UInt64.ofNat position) = .ok word := by
  rw [elementAt, small_to_nat position small, found]

theorem eval_top (tracks : Tracks inputs locals config scope)
    (small : config.stack.length < 2 ^ 63) {top : StackMachine.Word}
    {stack : List StackMachine.Word} (shape : config.stack = top :: stack) :
    eval Render.Rust.top scope = .ok (.i64 top, scope) := by
  have length : config.stack.length - 1 = stack.length := by simp [shape]
  have place := eval_sub (stack_length tracks) (show eval (.int 1) scope = _ from rfl)
    (subtract_counts config.stack.length 1 (by simp [shape]) (Nat.lt_trans small (by decide)))
  have selected : elementAt config.stack.reverse (UInt64.ofNat (config.stack.length - 1)) =
      .ok top := by
    apply element_at
    · omega
    · rw [length, shape, List.reverse_cons, ← List.length_reverse]
      simp
  obtain ⟨temporary, rfl⟩ := tracks
  exact eval_element (find_stack temporary) place rfl selected

variable (fuel : Nat)

/-- The configuration is held by the variables, whatever the arm has bound so far. -/
def Holds (inputs : List StackMachine.Word) (config : Config) (scope : Scope) : Prop :=
  ∃ locals, Tracks inputs locals config scope

theorem fail_returns (status : Status) (rest : Code Statement Expr Head) :
    (Code.simple (.plain (fail status)) rest).exec meaning fuel scope =
      .returned (answer (.fault status)) := rfl

theorem test_of_eval {test : Expr} {condition : Bool}
    (evaluates : eval test scope = .ok (.truth condition, scope)) :
    meaning.test test scope = .ok (condition, scope) := by
  simp only [meaning, evaluates, bind, Except.bind, Value.condition]

theorem guard_exec (test : Expr) (status : Status) (condition : Bool)
    (rest : Code Statement Expr Head)
    (evaluates : eval test scope = .ok (.truth condition, scope)) :
    (Code.branch test (rowCode [fail status]) .done rest).exec meaning fuel scope =
      if condition then .returned (answer (.fault status)) else rest.exec meaning fuel scope :=
  Code.exec_guard (test_of_eval evaluates) (Scope.leave_self scope) (fail_returns fuel status .done)

theorem leave_tracks {outer inner : Scope} {before after : Config} (bound : Scope)
    (tracksOuter : Tracks inputs locals before outer)
    (tracksInner : Tracks inputs (bound ++ locals) after inner) :
    Tracks inputs locals after (Scope.leave outer inner) := by
  obtain ⟨temporary, rfl⟩ := tracksOuter
  obtain ⟨-, rfl⟩ := tracksInner
  refine ⟨temporary, ?_⟩
  rw [List.append_assoc]
  exact Scope.leave_front _ _ _ (by simp [frame])

theorem require_depth_exec (tracks : Tracks inputs locals config scope) (depth : Nat)
    (depthIs : depth = 1 ∨ depth = 2) (small : config.stack.length < 2 ^ 63) (rest : List Stmt) :
    (code (requireDepth depth :: rest)).exec meaning fuel scope =
      if config.stack.length < depth then .returned (answer (.fault .stackUnderflow))
      else (code rest).exec meaning fuel scope := by
  rcases depthIs with rfl | rfl
  · have shallow : config.stack.isEmpty = decide (config.stack.length < 1) := by
      cases config.stack <;> simp
    have guard := guard_exec fuel (.isEmpty .stack) .stackUnderflow _ (code rest)
      (stack_is_empty tracks)
    rw [shallow] at guard
    simp only [decide_eq_true_eq] at guard
    exact guard
  · have shallow : relate .lt (config.stack.length : Int) (2 : Nat) =
        decide (config.stack.length < 2) := by
      rw [relate]
      exact decide_eq_decide.mpr Int.ofNat_lt
    have compared := eval_compare .lt (stack_length tracks) (show eval (.int 2) scope = _ from rfl)
      (relate_counts .lt config.stack.length 2 (Nat.lt_trans small (by decide)) (by decide))
    have guard := guard_exec fuel _ .stackUnderflow _ (code rest) compared
    rw [shallow] at guard
    simp only [decide_eq_true_eq] at guard
    exact guard

theorem guarded_agrees (program : Program) (tracks : Tracks inputs locals config scope)
    (small : config.stack.length < 2 ^ 63) (instr : Instr)
    (depthIs : instr.opcode.requiredDepth = 1 ∨ instr.opcode.requiredDepth = 2)
    (rest : List Stmt)
    (agrees : instr.opcode.requiredDepth ≤ config.stack.length →
      Agrees (Holds inputs) answer (program.execute inputs instr config)
        ((code rest).exec meaning fuel scope)) :
    Agrees (Holds inputs) answer (program.execute inputs instr config)
      ((code (requireDepth instr.opcode.requiredDepth :: rest)).exec meaning fuel scope) := by
  rw [require_depth_exec fuel tracks _ depthIs small]
  by_cases shallow : config.stack.length < instr.opcode.requiredDepth
  · rw [if_pos shallow, Program.execute_shallow instr shallow]
    rfl
  · rw [if_neg shallow]
    exact agrees (Nat.not_lt.mp shallow)

theorem advance_agrees (tracks : Tracks inputs locals config scope)
    (next : config.pc + 1 < 2 ^ 64) :
    Agrees (Holds inputs) answer (.next { config with pc := config.pc + 1 })
      ((code [.simple (setPc (config.pc + 1))]).exec meaning fuel scope) := by
  obtain ⟨after, goes, tracksAfter⟩ := set_pc_tracks tracks (config.pc + 1) next
  refine ⟨after, ?_, locals, tracksAfter⟩
  have moved : meaning.stmt (.plain (setPc (config.pc + 1))) scope = .next after := goes
  rw [code, Code.exec_simple moved]
  rfl

theorem push_agrees (tracks : Tracks inputs locals config scope) (next : config.pc + 1 < 2 ^ 64)
    (value : Expr) (word : StackMachine.Word)
    (evaluates : ∃ result, eval value scope = .ok (result, scope) ∧ result.signed = .ok word) :
    Agrees (Holds inputs) answer (config.advance (word :: config.stack))
      ((code [.simple (.push .stack value), .simple (setPc (config.pc + 1))]).exec
        meaning fuel scope) := by
  obtain ⟨result, valueIs, counts⟩ := evaluates
  obtain ⟨after, goes, tracksAfter⟩ := push_tracks tracks value result word valueIs counts
  rw [code, Code.exec_simple goes]
  exact advance_agrees fuel tracksAfter next

theorem halt_agrees (tracks : Tracks inputs locals config scope)
    (small : config.stack.length < 2 ^ 63) :
    Agrees (Holds inputs) answer (config.finish (.halt config.stack))
      ((code halt).exec meaning fuel scope) := by
  have guard := guard_exec fuel (.isEmpty .stack) .emptyStackOnHalt _
    (code [.simple (.answer .ok Render.Rust.top)]) (stack_is_empty tracks)
  refine guard.trans ?_
  cases shape : config.stack with
  | nil => rfl
  | cons top stack =>
      have answered : meaning.stmt (.plain (.answer .ok Render.Rust.top)) scope =
          .returned (answer (.halt (top :: stack))) :=
        perform_answer (eval_top tracks small shape) rfl
      rw [List.isEmpty_cons, if_neg (by simp), code, Code.exec_simple_returned answered]

theorem inputs_length (tracks : Tracks inputs locals config scope) :
    eval (.length .xs) scope = .ok (.usize (UInt64.ofNat inputs.length), scope) := by
  obtain ⟨temporary, rfl⟩ := tracks
  exact eval_length (find_xs temporary)

theorem eval_input (tracks : Tracks inputs locals config scope) {index : Expr} {indexValue : Value}
    (position : Nat) (value : StackMachine.Word)
    (indexIs : eval index scope = .ok (indexValue, scope))
    (counts : indexValue.unsigned = .ok (UInt64.ofNat position)) (small : position < 2 ^ 64)
    (found : inputs[position]? = some value) :
    eval (.element .xs index) scope = .ok (.i64 value, scope) := by
  obtain ⟨temporary, rfl⟩ := tracks
  exact eval_element (find_xs temporary) indexIs counts (element_at _ position value small found)

/-- The remainder by the number of inputs is a position, as an `i64` and as a `usize`. -/
theorem eval_cyclic_index (tracks : Tracks inputs locals config scope)
    (few : inputs.length < 2 ^ 63) (index : StackMachine.Word) (position : Nat)
    (remainder : index.toInt % inputs.length = position) (inside : position < inputs.length) :
    eval (cyclicIndex (receiver index)) scope =
      .ok (.usize (UInt64.ofNat position), scope) := by
  have lengthIs : (Int64.ofInt inputs.length).toInt = inputs.length :=
    Int64.toInt_ofInt_of_le (by omega) (by omega)
  have positionIs : (Int64.ofInt position).toInt = position :=
    Int64.toInt_ofInt_of_le (by omega) (by omega)
  have count : eval (.toI64 (.length .xs)) scope = .ok (.i64 (Int64.ofInt inputs.length), scope) := by
    have counted := eval_to_i64_count (inputs_length tracks)
    rw [small_to_nat inputs.length (by omega)] at counted
    exact counted
  have reduced := eval_rem_euclid (eval_receiver index) count
    (show (Int64.ofInt inputs.length).toInt > 0 by omega)
  rw [lengthIs, remainder] at reduced
  have converted := eval_to_usize_word reduced
  rw [wrap, positionIs, unsigned_of_count position (by omega)] at converted
  exact converted

theorem load_cyclic_agrees (tracks : Tracks inputs locals config scope)
    (next : config.pc + 1 < 2 ^ 64) (few : inputs.length < 2 ^ 63) (index : StackMachine.Word) :
    Agrees (Holds inputs) answer
      (match InputMode.cyclic.fetch? inputs index with
      | some value => config.advance (value :: config.stack)
      | none => config.finish (.fault .invalidInputIndex))
      ((code (loadInput index .cyclic (config.pc + 1))).exec meaning fuel scope) := by
  let rest : List Stmt := [.simple (.bind .i (cyclicIndex (receiver index))),
    .simple (.push .stack (.element .xs (.var .i))), .simple (setPc (config.pc + 1))]
  have empty : eval (.isEmpty .xs) scope = .ok (.truth inputs.isEmpty, scope) := by
    obtain ⟨temporary, rfl⟩ := tracks
    exact eval_is_empty (find_xs temporary)
  have guard : (code (loadInput index .cyclic (config.pc + 1))).exec meaning fuel scope = _ :=
    guard_exec fuel _ .invalidInputIndex _ (code rest) empty
  rw [guard]
  by_cases none : inputs = []
  · subst none
    rfl
  · obtain ⟨position, value, remainder, found, fetched⟩ := InputMode.fetch_cyclic index none
    have inside : position < inputs.length := (List.getElem?_eq_some_iff.mp found).1
    have bound : meaning.stmt (.plain (.bind .i (cyclicIndex (receiver index)))) scope = _ :=
      perform_bind (eval_cyclic_index tracks few index position remainder inside) rfl
    have tracksBound := bind_tracks tracks .i (.usize (UInt64.ofNat position)) (by decide)
    have indexIs : eval (.var .i) ((.i, ⟨false, .usize (UInt64.ofNat position)⟩) :: scope) =
        .ok (.usize (UInt64.ofNat position), _) := eval_usize_var rfl
    have evaluates := eval_input tracksBound position value indexIs rfl (by omega) found
    rw [fetched, if_neg (by simpa using none), code, Code.exec_simple bound]
    exact push_agrees fuel tracksBound next _ value ⟨_, evaluates, rfl⟩

theorem load_direct_agrees (tracks : Tracks inputs locals config scope)
    (next : config.pc + 1 < 2 ^ 64) (few : inputs.length < 2 ^ 63) (index : StackMachine.Word) :
    Agrees (Holds inputs) answer
      (match InputMode.direct.fetch? inputs index with
      | some value => config.advance (value :: config.stack)
      | none => config.finish (.fault .invalidInputIndex))
      ((code (loadInput index .direct (config.pc + 1))).exec meaning fuel scope) := by
  by_cases negative : index < 0
  · rw [InputMode.fetch_direct_negative negative, loadInput, if_pos negative]
    rfl
  · have above := Word.to_int_nonneg negative
    obtain ⟨place, placeIs⟩ := Int.eq_ofNat_of_zero_le above
    have upper : index.toInt ≤ Int64.maxValue.toInt := index.toInt_le
    have greatest : Int64.maxValue.toInt = 2 ^ 63 - 1 := rfl
    have placeSmall : place < 2 ^ 64 := by omega
    let rest : List Stmt := [.simple (.push .stack (.element .xs (.int index.toInt))),
      .simple (setPc (config.pc + 1))]
    have tested : eval (.compare .le (.length .xs) (.int index.toInt)) scope =
        .ok (.truth (relate .le inputs.length place), scope) := by
      rw [placeIs]
      exact eval_compare .le (inputs_length tracks) rfl
        (relate_counts .le inputs.length place (by omega) placeSmall)
    have guard := guard_exec fuel _ .invalidInputIndex _ (code rest) tested
    have shape : code (loadInput index .direct (config.pc + 1)) =
        .branch (.compare .le (.length .xs) (.int index.toInt))
          (rowCode [fail .invalidInputIndex]) .done (code rest) := by
      rw [loadInput, if_neg negative]
      rfl
    rw [shape, guard]
    by_cases outside : inputs.length ≤ place
    · have refused : (inputs.length : Int) ≤ index.toInt := by omega
      rw [InputMode.fetch_direct_outside (Or.inr refused), relate,
        if_pos (decide_eq_true (Int.ofNat_le.mpr outside))]
      rfl
    · obtain ⟨position, value, positionIs, found, fetched⟩ :=
        InputMode.fetch_direct above (show index.toInt < inputs.length by omega)
      have same : position = place := by omega
      have evaluates : eval (.element .xs (.int index.toInt)) scope = .ok (.i64 value, scope) := by
        rw [placeIs]
        exact eval_input tracks place value rfl (unsigned_literal place placeSmall) placeSmall
          (same ▸ found)
      have inBounds : ¬decide ((inputs.length : Int) ≤ place) = true := by
        simpa using outside
      rw [fetched, relate, if_neg inBounds]
      exact push_agrees fuel tracks next _ value ⟨_, evaluates, rfl⟩

theorem divisor_check_exec (op : BinaryOp) (left right : StackMachine.Word) {isMutable : Bool}
    (rightIs : scope.find .b = some ⟨isMutable, .i64 right⟩) (rest : List Stmt) :
    (code (divisorCheck op ++ rest)).exec meaning fuel scope =
      if (op.eval? left right).isNone then .returned (answer (.fault .divOrModByZero))
      else (code rest).exec meaning fuel scope := by
  have zero : eval (.compare .eq (.var .b) (.int 0)) scope =
      .ok (.truth (right == 0), scope) := by
    rw [Word.beq_to_int]
    exact eval_compare .eq (eval_i64_var rightIs) rfl (relate_word_literal .eq right 0)
  have guard := guard_exec fuel _ .divOrModByZero _ (code rest) zero
  cases op with
  | div | mod =>
      refine Eq.trans guard ?_
      by_cases isZero : right = 0 <;> simp [BinaryOp.eval?, isZero]
  | add | sub | mul | eq | gt | lt => rfl

theorem binary_agrees (program : Program) (tracks : Tracks inputs [] config scope)
    (next : config.pc + 1 < 2 ^ 64) (small : config.stack.length < 2 ^ 63) (op : BinaryOp) :
    Agrees (Holds inputs) answer (program.execute inputs (.binary op) config)
      ((code (binary op (config.pc + 1))).exec meaning fuel scope) := by
  let ends : List Stmt := [.simple (.push .stack (binaryValue op)),
    .simple (setPc (config.pc + 1))]
  refine guarded_agrees fuel program tracks small (.binary op) (Or.inr rfl)
    ([.simple (.bind .b pop), .simple (.bind .a pop)] ++ divisorCheck op ++ ends) fun deep => ?_
  obtain ⟨right, left, stack, shape⟩ := two_entries deep
  obtain ⟨first, popRight, tracksFirst⟩ :=
    pop_tracks tracks right (left :: stack) shape .b (by decide)
  obtain ⟨second, popLeft, tracksSecond⟩ := pop_tracks tracksFirst left stack rfl .a (by decide)
  have leftIs : second.find .a = some ⟨false, .i64 left⟩ := by
    obtain ⟨-, rfl⟩ := tracksSecond
    rfl
  have rightIs : second.find .b = some ⟨false, .i64 right⟩ := by
    obtain ⟨-, rfl⟩ := tracksSecond
    rfl
  have popped : (code ([.simple (.bind .b pop), .simple (.bind .a pop)] ++ divisorCheck op ++
      ends)).exec meaning fuel scope = (code (divisorCheck op ++ ends)).exec meaning fuel second :=
    (Code.exec_simple popRight).trans (Code.exec_simple popLeft)
  rw [popped, divisor_check_exec fuel op left right rightIs, Program.execute_binary op shape]
  cases evaluated : op.eval? left right with
  | none => rfl
  | some value =>
      exact push_agrees fuel tracksSecond next _ _
        (eval_binary_value op left right value leftIs rightIs evaluated)

theorem unary_agrees (program : Program) (tracks : Tracks inputs [] config scope)
    (next : config.pc + 1 < 2 ^ 64) (small : config.stack.length < 2 ^ 63) (op : UnaryOp) :
    Agrees (Holds inputs) answer (program.execute inputs (.unary op) config)
      ((code (unary op (config.pc + 1))).exec meaning fuel scope) := by
  refine guarded_agrees fuel program tracks small (.unary op) (Or.inl rfl) _ fun deep => ?_
  obtain ⟨value, stack, shape⟩ := List.exists_cons_of_length_pos deep
  obtain ⟨after, popped, tracksAfter⟩ := pop_tracks tracks value stack shape .a (by decide)
  have valueIs : after.find .a = some ⟨false, .i64 value⟩ := by
    obtain ⟨-, rfl⟩ := tracksAfter
    rfl
  rw [Program.execute_unary op shape, code, Code.exec_simple popped]
  exact push_agrees fuel tracksAfter next _ _ (eval_unary_value op value valueIs)

theorem exchange_tops (below : List StackMachine.Word) (lower upper : StackMachine.Word)
    (small : below.length + 2 < 2 ^ 64) :
    exchanged (below ++ [lower, upper]) (UInt64.ofNat (below.length + 1))
      (UInt64.ofNat below.length) = .ok (below ++ [upper, lower]) := by
  rw [exchanged, small_to_nat (below.length + 1) (by omega), small_to_nat below.length (by omega)]
  simp

theorem exchange_exec (tracks : Tracks inputs locals config scope)
    (small : config.stack.length < 2 ^ 63) (upper lower : StackMachine.Word)
    (stack : List StackMachine.Word) (shape : config.stack = upper :: lower :: stack)
    (rest : List Stmt) :
    ∃ after bound, (code ((stackEffect .swap).map Stmt.simple ++ rest)).exec meaning fuel scope =
        (code rest).exec meaning fuel after ∧
      Tracks inputs bound { config with stack := lower :: upper :: stack } after := by
  let count : Value := .usize (UInt64.ofNat config.stack.length)
  have depth : config.stack.length = stack.length + 2 := by simp [shape]
  have counted : meaning.stmt (.plain (.bind .n (.length .stack))) scope =
      .next ((.n, ⟨false, count⟩) :: scope) := perform_bind (stack_length tracks) rfl
  have position : ∀ below : Nat, below ≤ 2 →
      eval (.sub (.var .n) (.int below)) ((.n, ⟨false, count⟩) :: scope) =
        .ok (.usize (UInt64.ofNat (config.stack.length - below)), (.n, ⟨false, count⟩) :: scope) :=
    fun below fits => eval_sub (eval_usize_var rfl) rfl
      (subtract_counts _ below (by omega) (Nat.lt_trans small (by decide)))
  have upperPlace : config.stack.length - 1 = stack.reverse.length + 1 := by simp [shape]
  have lowerPlace : config.stack.length - 2 = stack.reverse.length := by simp [shape]
  have elements : config.stack.reverse = stack.reverse ++ [lower, upper] := by simp [shape]
  have swaps : exchanged config.stack.reverse (UInt64.ofNat (config.stack.length - 1))
      (UInt64.ofNat (config.stack.length - 2)) = .ok (lower :: upper :: stack).reverse := by
    rw [upperPlace, lowerPlace, elements, exchange_tops _ _ _ (by rw [List.length_reverse]; omega)]
    simp
  obtain ⟨temporary, scopeIs⟩ := bind_tracks tracks .n count (by decide)
  have swapped : meaning.stmt
      (.plain (.swap .stack (.sub (.var .n) (.int 1)) (.sub (.var .n) (.int 2))))
      ((.n, ⟨false, count⟩) :: scope) =
      .next (((.n, ⟨false, count⟩) :: locals) ++
        frame inputs (lower :: upper :: stack) config.pc config.steps) := by
    have found : Scope.find ((.n, ⟨false, count⟩) :: scope) .stack =
        some ⟨true, .list config.stack.reverse⟩ := by
      rw [scopeIs]
      exact find_stack temporary
    have changes : change ((.n, ⟨false, count⟩) :: scope) .stack
        (.list (lower :: upper :: stack).reverse) =
        .ok (((.n, ⟨false, count⟩) :: locals) ++
          frame inputs (lower :: upper :: stack) config.pc config.steps) := by
      rw [scopeIs]
      exact change_stack temporary _
    exact perform_swap (position 1 (by omega)) rfl (position 2 (by omega)) rfl found swaps changes
  exact ⟨_, _, (Code.exec_simple counted).trans (Code.exec_simple swapped), temporary, rfl⟩

theorem stack_agrees (program : Program) (tracks : Tracks inputs [] config scope)
    (next : config.pc + 1 < 2 ^ 64) (small : config.stack.length < 2 ^ 63) (op : StackOp) :
    Agrees (Holds inputs) answer (program.execute inputs (.stack op) config)
      ((code (stack op (config.pc + 1))).exec meaning fuel scope) := by
  refine guarded_agrees fuel program tracks small (.stack op) (Opcode.stack_depth op) _
    fun deep => ?_
  cases op with
  | dup =>
      obtain ⟨top, stack, shape⟩ := List.exists_cons_of_length_pos deep
      have copied : meaning.stmt (.plain (.bind .a Render.Rust.top)) scope = _ :=
        perform_bind (eval_top tracks small shape) rfl
      have tracksBound := bind_tracks tracks .a (.i64 top) (by decide)
      have agrees := push_agrees fuel tracksBound next (.var .a) top
        ⟨_, eval_i64_var rfl, rfl⟩
      rw [Program.execute_dup shape]
      rw [shape] at agrees
      exact (Code.exec_simple copied).symm ▸ agrees
  | swap =>
      obtain ⟨upper, lower, stack, shape⟩ := two_entries deep
      obtain ⟨after, bound, exchanged, tracksAfter⟩ := exchange_exec fuel tracks small upper lower
        stack shape [.simple (setPc (config.pc + 1))]
      rw [Program.execute_swap shape]
      exact exchanged.symm ▸ advance_agrees fuel tracksAfter next
  | pop =>
      obtain ⟨top, stack, shape⟩ := List.exists_cons_of_length_pos deep
      obtain ⟨after, discarded, tracksAfter⟩ := discard_tracks tracks top stack shape
      rw [Program.execute_pop shape]
      exact (Code.exec_simple discarded).symm ▸ advance_agrees fuel tracksAfter next

theorem jump_tracks (tracks : Tracks inputs locals config scope) (position : Nat)
    (small : position < 2 ^ 64) :
    ∃ after, (rowCode [setPc position]).exec meaning fuel scope = .next after ∧
      Tracks inputs locals { config with pc := position } after := by
  obtain ⟨after, goes, tracksAfter⟩ := set_pc_tracks tracks position small
  exact ⟨after, Code.exec_simple goes, tracksAfter⟩

theorem jump_agrees (program : Program) (short : program.length < 2 ^ 64)
    (stack : List StackMachine.Word)
    (tracks : Tracks inputs locals { config with stack := stack } scope)
    (target : StackMachine.Word) :
    Agrees (Holds inputs) answer (program.takeJump target config stack)
      ((rowCode [jump ((program.jumpMode.resolve? program.length target).map fun position =>
        (position : Int))]).exec meaning fuel scope) := by
  rw [Program.takeJump]
  cases resolved : program.jumpMode.resolve? program.length target with
  | none => rfl
  | some position =>
      have inside := JumpMode.resolve_lt _ _ _ _ resolved
      obtain ⟨after, goes, tracksAfter⟩ :=
        jump_tracks fuel tracks position (Nat.lt_trans inside short)
      exact ⟨after, goes, locals, tracksAfter⟩

theorem branch_agrees (program : Program) (short : program.length < 2 ^ 64)
    (tracks : Tracks inputs [] config scope) (next : config.pc + 1 < 2 ^ 64)
    (small : config.stack.length < 2 ^ 63) (condition : Condition) (target : StackMachine.Word) :
    Agrees (Holds inputs) answer (program.execute inputs (.branch condition target) config)
      ((code (branch condition ((program.jumpMode.resolve? program.length target).map
        fun position => (position : Int)) (config.pc + 1))).exec meaning fuel scope) := by
  refine guarded_agrees fuel program tracks small (.branch condition target) (Or.inl rfl) _
    fun deep => ?_
  obtain ⟨value, stack, shape⟩ := List.exists_cons_of_length_pos deep
  obtain ⟨after, popped, tracksAfter⟩ := pop_tracks tracks value stack shape .c (by decide)
  have tested : eval (conditionTest condition) after =
      .ok (.truth (condition.holds value), after) := by
    obtain ⟨-, rfl⟩ := tracksAfter
    exact eval_condition_test condition value rfl
  rw [Program.execute_branch condition target shape, Program.takeJump]
  cases resolved : program.jumpMode.resolve? program.length target with
  | none =>
      have guard := guard_exec fuel (conditionTest condition) .badJumpTarget _
        (code [.simple (setPc (config.pc + 1))]) tested
      change Agrees _ _ _ ((code (.simple (.bind .c pop) ::
        [.ifThen (conditionTest condition) [jump none], .simple (setPc (config.pc + 1))])).exec
          meaning fuel scope)
      rw [code, Code.exec_simple popped, code, jump, guard]
      cases condition.holds value with
      | true => rfl
      | false => exact advance_agrees fuel tracksAfter next
  | some position =>
      have inside := JumpMode.resolve_lt _ _ _ _ resolved
      change Agrees _ _ _ ((code (.simple (.bind .c pop) ::
        [.ifElse (conditionTest condition) [jump (some (position : Int))]
          [setPc (config.pc + 1)]])).exec meaning fuel scope)
      rw [code, Code.exec_simple popped, code, code, Code.exec_last_branch (test_of_eval tested)]
      cases condition.holds value with
      | true =>
          obtain ⟨there, goes, tracksThere⟩ :=
            jump_tracks fuel tracksAfter position (Nat.lt_trans inside short)
          exact ⟨_, congrArg _ goes, _, leave_tracks [] tracksAfter tracksThere⟩
      | false =>
          obtain ⟨there, goes, tracksThere⟩ := jump_tracks fuel tracksAfter (config.pc + 1) next
          exact ⟨_, congrArg _ goes, _, leave_tracks [] tracksAfter tracksThere⟩

theorem execute_agrees (program : Program) (short : program.length < 2 ^ 64)
    (tracks : Tracks inputs [] config scope) (next : config.pc + 1 < 2 ^ 64)
    (small : config.stack.length < 2 ^ 63) (few : inputs.length < 2 ^ 63) (instr : Instr) :
    Agrees (Holds inputs) answer (program.execute inputs instr config)
      ((code (body (.ofInstr program config.pc instr)).1).exec meaning fuel scope) := by
  cases instr with
  | halt => exact halt_agrees fuel tracks small
  | pushConst value => exact push_agrees fuel tracks next (literal value) value (eval_literal value)
  | loadInput index =>
      change Agrees _ _ _ ((code (loadInput index program.inputMode (config.pc + 1))).exec
        meaning fuel scope)
      rw [Program.execute_load]
      cases program.inputMode with
      | cyclic => exact load_cyclic_agrees fuel tracks next few index
      | direct => exact load_direct_agrees fuel tracks next few index
  | binary op => exact binary_agrees fuel program tracks next small op
  | unary op => exact unary_agrees fuel program tracks next small op
  | stack op => exact stack_agrees fuel program tracks next small op
  | jump target => exact jump_agrees fuel program short config.stack tracks target
  | branch condition target =>
      exact branch_agrees fuel program short tracks next small condition target

/-- What holds before every turn of the loop. The depth of the stack is bounded by the steps that
were counted, and these by the budget. -/
structure Runs (program : Program) (inputs : List StackMachine.Word) (config : Config)
    (scope : Scope) : Prop where
  tracks : Tracks inputs [] config scope
  inside : config.pc ≤ program.length
  depth : config.stack.length ≤ config.steps
  counted : config.steps ≤ program.budget

theorem arm_test_tracks (tracks : Tracks inputs locals config scope) (position : Nat)
    (inside : config.pc < 2 ^ 64) (small : position < 2 ^ 64) :
    meaning.test (armTest .pc position) scope = .ok (decide (config.pc = position), scope) := by
  obtain ⟨temporary, rfl⟩ := tracks
  have compared : relate .eq (config.pc : Int) position = decide (config.pc = position) := by
    rw [Bool.eq_iff_iff, relate, beq_iff_eq, decide_eq_true_eq, Int.ofNat_inj]
  rw [← compared]
  exact test_of_eval (eval_compare .eq (eval_usize_var (find_pc temporary)) rfl
    (relate_counts .eq config.pc position inside small))

theorem leaving_agrees (tracks : Tracks inputs [] config scope) {transition : Transition}
    {outcome : Ran} (agrees : Agrees (Holds inputs) answer transition outcome) :
    Agrees (Tracks inputs []) answer transition (outcome.leaving (meaning.leave scope)) := by
  refine agrees.leaving fun following after ⟨bound, tracksAfter⟩ => ?_
  refine leave_tracks bound tracks ?_
  rw [List.append_nil]
  exact tracksAfter

/-- One turn of the loop is one step of the machine. -/
theorem turn_agrees (program : Program) (short : program.length < 2 ^ 64)
    (few : inputs.length < 2 ^ 63) (tracks : Tracks inputs [] config scope)
    (inside : config.pc ≤ program.length) (small : config.stack.length < 2 ^ 63)
    (left : config.steps + 1 < 2 ^ 63) :
    Agrees (Tracks inputs []) answer (program.step inputs config)
      (((armsFrom program 0 program.code).exec meaning fuel scope).leaving
        (meaning.leave scope)) := by
  have tests := fun pc (below : pc < program.length) =>
    arm_test_tracks tracks pc (Nat.lt_of_le_of_lt inside short) (Nat.lt_trans below short)
  refine chain_agrees program fuel tests (Scope.leave_leave scope) (halt_agrees fuel tracks small)
    fun instr found => ?_
  have here : config.pc < program.length := (List.getElem?_eq_some_iff.mp found).1
  obtain ⟨counted, counts, tracksCounted⟩ := increment_tracks tracks left
  rw [armCode, Code.exec_simple counts]
  exact leaving_agrees tracks (execute_agrees fuel program short tracksCounted
    (Nat.lt_of_le_of_lt here short) small few instr)

theorem loop_test_tracks (program : Program) (tracks : Tracks inputs locals config scope)
    (counted : config.steps ≤ program.budget) :
    meaning.test (loopTest program) scope =
      .ok (decide (config.steps < program.budget), scope) := by
  obtain ⟨temporary, rfl⟩ := tracks
  have small := program.budget_lt
  have stepsIs : (Int64.ofInt config.steps).toInt = config.steps :=
    Int64.toInt_ofInt_of_le (by omega) (by omega)
  have compared : relate .lt (Int64.ofInt config.steps).toInt program.maxSteps.toInt =
      decide (config.steps < program.budget) := by
    rw [stepsIs, ← program.budget_is, relate]
    exact decide_eq_decide.mpr Int.ofNat_lt
  rw [← compared]
  exact test_of_eval (eval_compare .lt (eval_i64_var (find_steps temporary)) rfl
    (relate_word_literal .lt _ program.maxSteps))

theorem runs_turn (program : Program) (short : program.length < 2 ^ 64)
    (few : inputs.length < 2 ^ 63) (runs : Runs program inputs config scope)
    (left : config.steps < program.budget) :
    Agrees (Runs program inputs) answer (program.step inputs config)
      (((armsFrom program 0 program.code).exec meaning fuel scope).leaving
        (meaning.leave scope)) := by
  have limit := program.budget_lt
  have depth := runs.depth
  have turned := turn_agrees fuel program short few runs.tracks runs.inside (by omega) (by omega)
  refine turned.after_step fun following after stepped tracks => ?_
  have follows := Program.step_next config following stepped
  refine ⟨tracks, follows.pc, follows.shallow runs.depth, ?_⟩
  rw [follows.steps]
  exact left

theorem loop_returns (program : Program) (short : program.length < 2 ^ 64)
    (few : inputs.length < 2 ^ 63) (tracks : Tracks inputs [] .start scope)
    (enough : program.budget < fuel) :
    (loopCode program).exec meaning fuel scope =
      .returned (answer (program.evaluate inputs)) := by
  apply loop_answers program (Runs program inputs) fuel
  · exact fun _ _ runs => loop_test_tracks program runs.tracks runs.counted
  · exact fun _ _ runs left => runs_turn fuel program short few runs left
  · exact fun scope => fail_returns fuel .stepLimit .done
  · exact ⟨tracks, Nat.zero_le _, Nat.le_refl _, Nat.zero_le _⟩
  · exact Nat.zero_add _
  · exact enough

/-- The body of a rendered function, on a scope that holds the inputs and nothing else. -/
theorem function_returns (program : Program) (short : program.length < 2 ^ 64)
    (few : inputs.length < 2 ^ 63) (enough : program.budget < fuel) :
    (functionCode program).exec meaning fuel [(.xs, ⟨false, .list inputs⟩)] =
      .returned (answer (program.evaluate inputs)) := by
  have tracks : Tracks inputs [] .start (frame inputs [] 0 0) := ⟨by simp [AllTemporary], rfl⟩
  have entered : (functionCode program).exec meaning fuel [(.xs, ⟨false, .list inputs⟩)] =
      (loopCode program).exec meaning fuel (frame inputs [] 0 0) := rfl
  rw [entered]
  exact loop_returns fuel program short few tracks enough

/-- For every program, every valid name and all inputs, as long as their lengths fit the 64 bits of a
`usize` and an `i64` as those of vectors and slices do, the rendered function terminates, never panics
and returns the status and the value of the run. -/
theorem rust_answers (program : Program) (name : Text) (inputs : List StackMachine.Word)
    (valid : Language.isFunctionName .rust name = true) (short : program.length < 2 ^ 64)
    (few : inputs.length < 2 ^ 63) :
    Ends (fun fuel => call fuel (Language.rust.render name program) name inputs)
      (.returned (Int64.ofInt (program.evaluate inputs).status.code,
        (program.evaluate inputs).value)) := by
  refine ⟨program.budget + 1, fun fuel enough => ?_⟩
  simp only [call, read_rendered name program valid, programCode, if_true]
  exact function_returns fuel program short few enough

/-- The least word divided by minus one wraps around, and nothing panics. -/
theorem rust_answers_wrapped_quotient :
    let program : Program :=
      ⟨[.pushConst Int64.minValue, .loadInput (-1), .binary .div, .halt], 64, .error, .cyclic,
        by decide, by decide⟩
    Ends (fun fuel => call fuel (Language.rust.render "f" program) "f" [3, -1])
      (.returned (0, -9223372036854775808)) := by
  intro program
  have ran : program.evaluate [3, -1] = ⟨.ok, Int64.minValue⟩ := by decide +kernel
  have answered := rust_answers program "f" [3, -1] (by decide +kernel) (by decide) (by decide)
  rw [ran] at answered
  exact answered

end StackMachine.Rust

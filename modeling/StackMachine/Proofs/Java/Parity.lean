import StackMachine.Proofs.Java.Arithmetic
import StackMachine.Proofs.Java.Reading

/-!
# Rendered Java answers what the machine answers

While the loop runs, the entries of the array below `sp` are the stack of the machine from the bottom
up; above it anything may be left over. Doubling a full array keeps those entries and makes room for
one more, and the budget keeps `sp` and its double within an `int`. Whatever an arm declares is gone
after it.
-/

namespace StackMachine.Java

open StackMachine.Render StackMachine.Render.Java StackMachine.Source

set_option autoImplicit false

def frame (inputs array : List StackMachine.Word) (sp pc steps : Nat) : Scope :=
  [(.steps, .long (Int64.ofInt steps)), (.pc, .int (Int32.ofInt pc)), (.sp, .int (Int32.ofInt sp)),
    (.stack, .array array), (.xs, .array inputs)]

/-- The variables that an arm may declare for itself. -/
def IsTemporary (name : Var) : Prop :=
  name ≠ .xs ∧ name ≠ .stack ∧ name ≠ .sp ∧ name ≠ .pc ∧ name ≠ .steps

instance (name : Var) : Decidable (IsTemporary name) :=
  inferInstanceAs (Decidable
    (name ≠ .xs ∧ name ≠ .stack ∧ name ≠ .sp ∧ name ≠ .pc ∧ name ≠ .steps))

def AllTemporary (locals : Scope) : Prop := ∀ entry ∈ locals, IsTemporary entry.1

/-- The variables hold the configuration, behind the ones that the running arm has declared. -/
structure Tracks (inputs : List StackMachine.Word) (locals : Scope) (config : Config)
    (scope : Scope) : Prop where
  temporary : AllTemporary locals
  holds : ∃ slack, scope = locals ++ frame inputs (config.stack.reverse ++ slack)
      config.stack.length config.pc config.steps ∧
    16 ≤ config.stack.length + slack.length ∧ config.stack.length + slack.length < 2 ^ 31

def answer (result : Result) : List Int64 := [Int64.ofInt result.status.code, result.value]

section

variable {locals : Scope} {inputs array : List StackMachine.Word} {sp pc steps : Nat}

theorem all_temporary_cons {name : Var} {value : Value} (first : IsTemporary name)
    (rest : AllTemporary locals) : AllTemporary ((name, value) :: locals) := by
  intro entry member
  rcases List.mem_cons.mp member with here | later
  · rw [here]
    exact first
  · exact rest entry later

theorem misses_kept (temporary : AllTemporary locals) (name : Var) (kept : ¬IsTemporary name) :
    Scope.Misses locals name := by
  intro entry member same
  exact kept (same ▸ temporary entry member)

theorem find_xs (temporary : AllTemporary locals) :
    (locals ++ frame inputs array sp pc steps).find .xs = some (.array inputs) := by
  rw [Scope.find_past _ _ _ (misses_kept temporary .xs (by decide))]
  rfl

theorem find_stack (temporary : AllTemporary locals) :
    (locals ++ frame inputs array sp pc steps).find .stack = some (.array array) := by
  rw [Scope.find_past _ _ _ (misses_kept temporary .stack (by decide))]
  rfl

theorem find_sp (temporary : AllTemporary locals) :
    (locals ++ frame inputs array sp pc steps).find .sp = some (.int (Int32.ofInt sp)) := by
  rw [Scope.find_past _ _ _ (misses_kept temporary .sp (by decide))]
  rfl

theorem find_pc (temporary : AllTemporary locals) :
    (locals ++ frame inputs array sp pc steps).find .pc = some (.int (Int32.ofInt pc)) := by
  rw [Scope.find_past _ _ _ (misses_kept temporary .pc (by decide))]
  rfl

theorem find_steps (temporary : AllTemporary locals) :
    (locals ++ frame inputs array sp pc steps).find .steps = some (.long (Int64.ofInt steps)) := by
  rw [Scope.find_past _ _ _ (misses_kept temporary .steps (by decide))]
  rfl

theorem set_stack (temporary : AllTemporary locals) (other : List StackMachine.Word) :
    (locals ++ frame inputs array sp pc steps).set .stack (.array other) =
      locals ++ frame inputs other sp pc steps := by
  rw [Scope.set_past _ _ _ _ (misses_kept temporary .stack (by decide))]
  rfl

theorem set_sp (temporary : AllTemporary locals) (other : Nat) :
    (locals ++ frame inputs array sp pc steps).set .sp (.int (Int32.ofInt other)) =
      locals ++ frame inputs array other pc steps := by
  rw [Scope.set_past _ _ _ _ (misses_kept temporary .sp (by decide))]
  rfl

theorem set_pc (temporary : AllTemporary locals) (other : Nat) :
    (locals ++ frame inputs array sp pc steps).set .pc (.int (Int32.ofInt other)) =
      locals ++ frame inputs array sp other steps := by
  rw [Scope.set_past _ _ _ _ (misses_kept temporary .pc (by decide))]
  rfl

theorem set_steps (temporary : AllTemporary locals) (other : Nat) :
    (locals ++ frame inputs array sp pc steps).set .steps (.long (Int64.ofInt other)) =
      locals ++ frame inputs array sp pc other := by
  rw [Scope.set_past _ _ _ _ (misses_kept temporary .steps (by decide))]
  rfl

theorem raise_sp (temporary : AllTemporary locals) (small : sp < 2 ^ 31) :
    shifted (locals ++ frame inputs array sp pc steps) .sp 1 =
      .ok (locals ++ frame inputs array (sp + 1) pc steps) := by
  simp only [shifted, value_of_find (find_sp temporary), bind, Except.bind, Value.number,
    small_to_int sp small, Number.wrap, Bool.false_eq_true, if_false]
  rw [← set_sp temporary (sp + 1)]
  rfl

theorem lower_sp (temporary : AllTemporary locals) (small : sp + 1 < 2 ^ 31) :
    shifted (locals ++ frame inputs array (sp + 1) pc steps) .sp (-1) =
      .ok (locals ++ frame inputs array sp pc steps) := by
  have lowered : ((sp + 1 : Nat) : Int) + -1 = sp := by omega
  simp only [shifted, value_of_find (find_sp temporary), bind, Except.bind, Value.number,
    small_to_int (sp + 1) small, Number.wrap, Bool.false_eq_true, if_false, lowered]
  rw [set_sp temporary sp]

theorem eval_beneath (temporary : AllTemporary locals) (below place : Nat)
    (spIs : sp = place + below) (small : sp < 2 ^ 31) :
    eval (beneath below) (locals ++ frame inputs array sp pc steps) =
      .ok (.int (Int32.ofInt place), locals ++ frame inputs array sp pc steps) := by
  have lowered : (sp : Int) - below = place := by omega
  refine eval_arith (eval_int_var (find_sp temporary)) rfl rfl rfl ?_
  simp only [operate, small_to_int sp small, small_to_int below (by omega), lowered]
  rfl

end

section

variable {scope middle after : Scope} {name : Var} {value : Expr}

theorem perform_declare {word : StackMachine.Word}
    (evaluates : eval value scope = .ok (.long word, after)) :
    meaning.stmt (.plain (.declare name value)) scope = declare after name (.long word) := by
  simp only [meaning, perform, evaluates, attempt, Value.wide]

theorem perform_assign {before result kept : Value} (found : scope.find name = some before)
    (evaluates : eval value scope = .ok (result, after))
    (fits : before.assigned result = .ok kept) :
    meaning.stmt (.plain (.assign name value)) scope = .next (after.set name kept) := by
  simp only [meaning, perform, value_of_find found, attempt, evaluates, fits]

theorem perform_store {index : Expr} {place : Int32} {word : StackMachine.Word}
    {elements written : List Int64} (indexIs : eval index scope = .ok (.int place, middle))
    (evaluates : eval value middle = .ok (.long word, after))
    (found : after.find name = some (.array elements))
    (writes : setElement elements place.toInt word = .ok written) :
    meaning.stmt (.plain (.store name index value)) scope =
      .next (after.set name (.array written)) := by
  simp only [meaning, perform, indexIs, attempt, Value.small, evaluates, Value.wide,
    value_of_find found, Except.bind, Value.elements, writes]

theorem perform_answer {status : Status} {word : StackMachine.Word}
    (evaluates : eval value scope = .ok (.long word, after)) :
    meaning.stmt (.plain (.answer status value)) scope =
      .returned [Int64.ofInt status.code, word] := by
  simp only [meaning, perform, evaluates, attempt, Value.wide]

end

theorem element_between (below above : List StackMachine.Word) (word : StackMachine.Word) :
    elementAt (below ++ word :: above) below.length = .ok word := by
  simp [elementAt]

theorem set_element_between (below above : List StackMachine.Word) (old word : StackMachine.Word) :
    setElement (below ++ old :: above) below.length word = .ok (below ++ word :: above) := by
  have inside : below.length < (below ++ old :: above).length := by simp
  rw [setElement, if_pos (by omega)]
  simp

variable {inputs : List StackMachine.Word} {locals scope : Scope} {config : Config} (fuel : Nat)

theorem fail_returns (status : Status) (rest : Code Statement Expr Head) :
    (Code.simple (.plain (fail status)) rest).exec meaning fuel scope =
      .returned (answer (.fault status)) := rfl

theorem set_pc_tracks (tracks : Tracks inputs locals config scope) (position : Nat) :
    ∃ after, meaning.stmt (.plain (setPc position)) scope = .next after ∧
      Tracks inputs locals { config with pc := position } after := by
  obtain ⟨temporary, slack, rfl, room⟩ := tracks
  refine ⟨_, perform_assign (find_pc temporary) rfl rfl, temporary, slack, ?_, room⟩
  exact set_pc temporary position

theorem increment_tracks (tracks : Tracks inputs locals config scope) :
    ∃ after, meaning.stmt (.plain (.increment .steps)) scope = .next after ∧
      Tracks inputs locals { config with steps := config.steps + 1 } after := by
  obtain ⟨temporary, slack, rfl, room⟩ := tracks
  have counted : Int64.ofInt ((Int64.ofInt (config.steps : Int)).toInt + 1) =
      Int64.ofInt ((config.steps + 1 : Nat) : Int) := by
    rw [Int64.ofInt_add, Int64.ofInt_toInt, ← Int64.ofInt_add]
    rfl
  refine ⟨_, ?_, temporary, slack, rfl, room⟩
  simp only [meaning, perform, shifted, value_of_find (find_steps temporary), bind, Except.bind,
    Value.number, Number.wrap, if_true, attempt, counted]
  rw [set_steps temporary]

theorem find_temporary (name : Var) (temporary : IsTemporary name)
    (fresh : locals.find name = none) (array : List StackMachine.Word) (sp pc steps : Nat) :
    (locals ++ frame inputs array sp pc steps).find name = none := by
  obtain ⟨notXs, notStack, notSp, notPc, notSteps⟩ := temporary
  have past : (frame inputs array sp pc steps).lookup name = none := by
    simp [frame, List.lookup_cons, beq_false_of_ne, notXs, notStack, notSp, notPc, notSteps]
  rw [Scope.find] at fresh ⊢
  rw [List.lookup_append, fresh, past]
  rfl

theorem declare_tracks (tracks : Tracks inputs locals config scope) (name : Var) (value : Value)
    (temporary : IsTemporary name) (fresh : locals.find name = none) :
    ∃ after, declare scope name value = .next after ∧
      Tracks inputs ((name, value) :: locals) config after := by
  obtain ⟨allTemporary, slack, rfl, room⟩ := tracks
  refine ⟨_, ?_, all_temporary_cons temporary allTemporary, slack, rfl, room⟩
  rw [declare, find_temporary name temporary fresh]
  rfl

/-- The array as a nonempty stack sees it: the top stands just below the stack pointer. -/
theorem scope_of_cons (tracks : Tracks inputs locals config scope) {top : StackMachine.Word}
    {stack : List StackMachine.Word} (shape : config.stack = top :: stack) :
    ∃ slack, scope = locals ++ frame inputs (stack.reverse ++ top :: slack) (stack.length + 1)
        config.pc config.steps ∧
      16 ≤ stack.length + 1 + slack.length ∧ stack.length + 1 + slack.length < 2 ^ 31 := by
  obtain ⟨-, slack, rfl, room⟩ := tracks
  refine ⟨slack, ?_, ?_⟩
  · simp [shape]
  · simpa [shape] using room

theorem tracks_of_cons (temporary : AllTemporary locals) (top : StackMachine.Word)
    (stack slack : List StackMachine.Word)
    (scopeIs : scope = locals ++ frame inputs (stack.reverse ++ top :: slack) (stack.length + 1)
      config.pc config.steps)
    (least : 16 ≤ stack.length + 1 + slack.length)
    (most : stack.length + 1 + slack.length < 2 ^ 31) :
    Tracks inputs locals { config with stack := top :: stack } scope :=
  ⟨temporary, slack, by simp [scopeIs], least, most⟩

theorem tracks_of_slack (temporary : AllTemporary locals) (left : StackMachine.Word)
    (stack slack : List StackMachine.Word)
    (scopeIs : scope = locals ++ frame inputs (stack.reverse ++ left :: slack) stack.length
      config.pc config.steps)
    (least : 16 ≤ stack.length + 1 + slack.length)
    (most : stack.length + 1 + slack.length < 2 ^ 31) :
    Tracks inputs locals { config with stack := stack } scope := by
  have room : stack.length + (left :: slack).length = stack.length + 1 + slack.length := by
    rw [List.length_cons]
    omega
  refine ⟨temporary, left :: slack, scopeIs, ?_, ?_⟩
  · rw [room]
    exact least
  · rw [room]
    exact most

theorem pop_tracks (tracks : Tracks inputs locals config scope) (top : StackMachine.Word)
    (stack : List StackMachine.Word) (shape : config.stack = top :: stack) (name : Var)
    (temporary : IsTemporary name) (fresh : locals.find name = none) :
    ∃ after, meaning.stmt (.plain (.declare name pop)) scope = .next after ∧
      Tracks inputs ((name, .long top) :: locals) { config with stack := stack } after := by
  obtain ⟨slack, rfl, least, most⟩ := scope_of_cons tracks shape
  have selected : elementAt (stack.reverse ++ top :: slack) (stack.length : Int) = .ok top := by
    rw [← List.length_reverse]
    exact element_between _ _ _
  have popped : eval pop (locals ++ frame inputs (stack.reverse ++ top :: slack) (stack.length + 1)
      config.pc config.steps) =
      .ok (.long top, locals ++ frame inputs (stack.reverse ++ top :: slack) stack.length
        config.pc config.steps) := by
    simp only [pop, eval, value_of_find (find_stack tracks.temporary), bind, Except.bind,
      Value.elements, lower_sp tracks.temporary (Nat.lt_of_le_of_lt (Nat.le_add_right _ _) most),
      value_of_find (find_sp tracks.temporary), Value.small,
      small_to_int stack.length (by omega), selected]
  have lowered : Tracks inputs locals { config with stack := stack } _ :=
    tracks_of_slack tracks.temporary top stack slack rfl least most
  obtain ⟨after, declared, tracksAfter⟩ :=
    declare_tracks lowered name (.long top) temporary fresh
  exact ⟨after, by rw [perform_declare popped, declared], tracksAfter⟩

theorem eval_entry (temporary : AllTemporary locals) (below above : List StackMachine.Word)
    (word : StackMachine.Word) (depth sp pc steps : Nat) (spIs : sp = below.length + depth)
    (small : sp < 2 ^ 31) :
    eval (.element .stack (beneath depth))
        (locals ++ frame inputs (below ++ word :: above) sp pc steps) =
      .ok (.long word, locals ++ frame inputs (below ++ word :: above) sp pc steps) := by
  refine eval_element (find_stack temporary) (eval_beneath temporary depth _ spIs small) ?_
  rw [small_to_int below.length (by omega)]
  exact element_between _ _ _

theorem store_entry (temporary : AllTemporary locals) (below above : List StackMachine.Word)
    (old word : StackMachine.Word) (depth sp pc steps : Nat) (value : Expr)
    (spIs : sp = below.length + depth) (small : sp < 2 ^ 31)
    (evaluates : eval value (locals ++ frame inputs (below ++ old :: above) sp pc steps) =
      .ok (.long word, locals ++ frame inputs (below ++ old :: above) sp pc steps)) :
    meaning.stmt (.plain (.store .stack (beneath depth) value))
        (locals ++ frame inputs (below ++ old :: above) sp pc steps) =
      .next (locals ++ frame inputs (below ++ word :: above) sp pc steps) := by
  have writes : setElement (below ++ old :: above) (Int32.ofInt below.length).toInt word =
      .ok (below ++ word :: above) := by
    rw [small_to_int below.length (by omega)]
    exact set_element_between _ _ _ _
  rw [perform_store (eval_beneath temporary depth _ spIs small) evaluates (find_stack temporary)
    writes, set_stack temporary]

theorem eval_top (tracks : Tracks inputs locals config scope) {top : StackMachine.Word}
    {stack : List StackMachine.Word} (shape : config.stack = top :: stack) :
    eval Render.Java.top scope = .ok (.long top, scope) := by
  obtain ⟨slack, rfl, -, most⟩ := scope_of_cons tracks shape
  exact eval_entry tracks.temporary stack.reverse slack top 1 _ _ _ (by simp) (by omega)

theorem test_of_eval {test : Expr} {condition : Bool}
    (evaluates : eval test scope = .ok (.truth condition, scope)) :
    meaning.test test scope = .ok (condition, scope) := by
  simp only [meaning, evaluates, bind, Except.bind, Value.condition]

theorem leave_same_length (outer inner : Scope) (same : inner.length = outer.length) :
    Scope.leave outer inner = inner :=
  Scope.leave_front outer [] inner same

theorem relate_eq_counts (left right : Nat) :
    relate .eq (left : Int) right = decide (left = right) := by
  rw [Bool.eq_iff_iff, relate, beq_iff_eq, decide_eq_true_eq, Int.ofNat_inj]

theorem full_test (inputs : List StackMachine.Word) (temporary : AllTemporary locals)
    (array : List StackMachine.Word) (sp pc steps : Nat) (spSmall : sp < 2 ^ 31)
    (lengthSmall : array.length < 2 ^ 31) :
    meaning.test (.compare .eq (.var .sp) (.length .stack))
        (locals ++ frame inputs array sp pc steps) =
      .ok (decide (sp = array.length), locals ++ frame inputs array sp pc steps) := by
  rw [← relate_eq_counts, ← small_to_int sp spSmall, ← small_to_int array.length lengthSmall]
  exact test_of_eval (eval_compare _ (eval_int_var (find_sp temporary))
    (eval_length (find_stack temporary)) rfl rfl)

theorem eval_copy_of {array : Var} {elements copied : List Int64} {size : Expr} {count : Int32}
    (found : scope.find array = some (.array elements))
    (sizeIs : eval size scope = .ok (.int count, scope))
    (copies : resized elements count.toInt = .ok copied) :
    eval (.copyOf array size) scope = .ok (.array copied, scope) := by
  simp only [eval, value_of_find found, bind, Except.bind, Value.elements, sizeIs, Value.small,
    copies]

theorem double_exec (inputs : List StackMachine.Word) (temporary : AllTemporary locals)
    (array : List StackMachine.Word) (pc steps : Nat) (small : array.length < 2 ^ 30) :
    meaning.stmt (.plain (.assign .stack (.copyOf .stack (.arith .mul (.var .sp) (.int 2)))))
        (locals ++ frame inputs array array.length pc steps) =
      .next (locals ++ frame inputs (array ++ List.replicate array.length 0) array.length pc
        steps) := by
  have size : eval (.arith .mul (.var .sp) (.int 2))
      (locals ++ frame inputs array array.length pc steps) =
      .ok (.int (Int32.ofInt ((array.length * 2 : Nat) : Int)),
        locals ++ frame inputs array array.length pc steps) := by
    refine eval_arith (eval_int_var (find_sp temporary)) rfl rfl rfl ?_
    rw [small_to_int array.length (by omega)]
    rfl
  have copies : resized array (Int32.ofInt ((array.length * 2 : Nat) : Int)).toInt =
      .ok (array ++ List.replicate array.length 0) := by
    have rest : array.length * 2 - array.length = array.length := by omega
    rw [small_to_int (array.length * 2) (by omega), resized, if_neg (by omega), Int.toNat_natCast,
      List.take_of_length_le (by omega), rest]
  rw [perform_assign (find_stack temporary) (eval_copy_of (find_stack temporary) size copies) rfl,
    set_stack temporary]

theorem growth_exec (tracks : Tracks inputs locals config scope)
    (small : config.stack.length < 2 ^ 30) (rest : Code Statement Expr Head) :
    ∃ spare slack,
      (Code.branch (.compare .eq (.var .sp) (.length .stack))
          (rowCode [.assign .stack (.copyOf .stack (.arith .mul (.var .sp) (.int 2)))]) .done
          rest).exec meaning fuel scope =
        rest.exec meaning fuel (locals ++ frame inputs (config.stack.reverse ++ spare :: slack)
          config.stack.length config.pc config.steps) ∧
      16 ≤ config.stack.length + 1 + slack.length ∧
      config.stack.length + 1 + slack.length < 2 ^ 31 := by
  obtain ⟨temporary, slack, rfl, least, most⟩ := tracks
  have tested := full_test inputs temporary (config.stack.reverse ++ slack)
    config.stack.length config.pc config.steps (by omega) (by simpa using most)
  rw [Code.exec_branch tested]
  cases slack with
  | nil =>
      rw [List.length_nil] at least
      obtain ⟨spare, zeros, zerosAre⟩ : ∃ spare zeros,
          List.replicate config.stack.length (0 : StackMachine.Word) = spare :: zeros :=
        List.exists_cons_of_length_pos (by rw [List.length_replicate]; omega)
      have count : zeros.length + 1 = config.stack.length := by
        rw [← List.length_cons, ← zerosAre, List.length_replicate]
      have doubled := double_exec inputs temporary config.stack.reverse config.pc
        config.steps (by simpa using small)
      rw [List.length_reverse, zerosAre] at doubled
      have grown : (rowCode [.assign .stack
          (.copyOf .stack (.arith .mul (.var .sp) (.int 2)))]).exec meaning fuel
          (locals ++ frame inputs (config.stack.reverse ++ []) config.stack.length config.pc
            config.steps) =
          .next (locals ++ frame inputs (config.stack.reverse ++ spare :: zeros)
            config.stack.length config.pc config.steps) := by
        rw [List.append_nil]
        exact Code.exec_simple doubled
      refine ⟨spare, zeros, ?_, by omega, by omega⟩
      rw [if_pos (by simp), grown, Outcome.leaving_next, Outcome.and_then_next]
      exact congrArg _ (leave_same_length _ _ (by simp [frame]))
  | cons spare slack =>
      rw [List.length_cons] at least most
      refine ⟨spare, slack, ?_, by omega, by omega⟩
      rw [if_neg (by simp), Code.exec, Outcome.leaving_next, Outcome.and_then_next]
      exact congrArg _ (Scope.leave_self _)

/-- A push stores its value above the entries that are there, wherever it finds room. The value may
not depend on the array or the stack pointer, which both change before it is stored. -/
theorem push_exec (tracks : Tracks inputs locals config scope)
    (small : config.stack.length < 2 ^ 30) (value : Expr) (word : StackMachine.Word)
    (evaluates : ∀ array sp,
      eval value (locals ++ frame inputs array sp config.pc config.steps) =
        .ok (.long word, locals ++ frame inputs array sp config.pc config.steps))
    (rest : List Stmt) :
    ∃ after, (code (push value ++ rest)).exec meaning fuel scope =
        (code rest).exec meaning fuel after ∧
      Tracks inputs locals { config with stack := word :: config.stack } after := by
  have temporary := tracks.temporary
  obtain ⟨spare, slack, grown, least, most⟩ :=
    growth_exec fuel tracks small (code (.simple (.store .stack (.raised .sp) value) :: rest))
  have raised : eval (.raised .sp) (locals ++ frame inputs (config.stack.reverse ++ spare :: slack)
      config.stack.length config.pc config.steps) =
      .ok (.int (Int32.ofInt config.stack.length),
        locals ++ frame inputs (config.stack.reverse ++ spare :: slack)
          (config.stack.length + 1) config.pc config.steps) := by
    simp only [eval, value_of_find (find_sp temporary), bind, Except.bind,
      raise_sp temporary (Nat.lt_trans small (by decide))]
  have writes : setElement (config.stack.reverse ++ spare :: slack)
      (Int32.ofInt config.stack.length).toInt word =
        .ok (config.stack.reverse ++ word :: slack) := by
    rw [small_to_int _ (by omega), ← List.length_reverse]
    exact set_element_between _ _ _ _
  have stored :=
    perform_store raised (evaluates _ _) (find_stack temporary) writes
  rw [set_stack temporary] at stored
  refine ⟨_, ?_, tracks_of_cons temporary word config.stack slack rfl least most⟩
  exact grown.trans (Code.exec_simple stored)

/-- The configuration is held by the variables, whatever the arm has declared so far. -/
def Holds (inputs : List StackMachine.Word) (config : Config) (scope : Scope) : Prop :=
  ∃ locals, Tracks inputs locals config scope

theorem guard_exec (test : Expr) (status : Status) (condition : Bool)
    (rest : Code Statement Expr Head)
    (tested : meaning.test test scope = .ok (condition, scope)) :
    (Code.branch test (rowCode [fail status]) .done rest).exec meaning fuel scope =
      if condition then .returned (answer (.fault status)) else rest.exec meaning fuel scope :=
  Code.exec_guard tested (Scope.leave_self scope) (fail_returns fuel status .done)

theorem leave_tracks {outer inner : Scope} {before after : Config} (declared : Scope)
    (tracksOuter : Tracks inputs locals before outer)
    (tracksInner : Tracks inputs (declared ++ locals) after inner) :
    Tracks inputs locals after (Scope.leave outer inner) := by
  obtain ⟨temporary, slack, rfl, -⟩ := tracksOuter
  obtain ⟨-, left, rfl, room⟩ := tracksInner
  refine ⟨temporary, left, ?_, room⟩
  rw [List.append_assoc]
  exact Scope.leave_front _ _ _ (by simp [frame])

theorem sp_test (tracks : Tracks inputs locals config scope) (relation : Relation) (number : Nat)
    (small : number < 2 ^ 31) :
    meaning.test (.compare relation (.var .sp) (.int number)) scope =
      .ok (relate relation config.stack.length number, scope) := by
  obtain ⟨temporary, slack, rfl, -, most⟩ := tracks
  have depth : eval (.var .sp) (locals ++ frame inputs (config.stack.reverse ++ slack)
      config.stack.length config.pc config.steps) =
      .ok (.int (Int32.ofInt config.stack.length), _) := eval_int_var (find_sp temporary)
  have tested := test_of_eval (eval_compare relation depth
    (show eval (.int number) _ = _ from rfl) rfl rfl)
  rw [small_to_int config.stack.length (by omega), small_to_int number small] at tested
  exact tested

theorem require_depth_exec (tracks : Tracks inputs locals config scope) (depth : Nat)
    (small : depth < 2 ^ 31) (rest : List Stmt) :
    (code (requireDepth depth :: rest)).exec meaning fuel scope =
      if config.stack.length < depth then .returned (answer (.fault .stackUnderflow))
      else (code rest).exec meaning fuel scope := by
  have shallow : relate .lt (config.stack.length : Int) depth =
      decide (config.stack.length < depth) := by
    rw [relate]
    exact decide_eq_decide.mpr Int.ofNat_lt
  have guard := guard_exec fuel _ .stackUnderflow _ (code rest)
    (sp_test tracks .lt depth small)
  rw [shallow] at guard
  simp only [decide_eq_true_eq] at guard
  exact guard

/-- An instruction that needs some depth is refused by its guard just where the machine refuses it,
and only its proper effect is left to compare. -/
theorem guarded_agrees (program : Program) (tracks : Tracks inputs locals config scope)
    (instr : Instr) (rest : List Stmt)
    (agrees : instr.opcode.requiredDepth ≤ config.stack.length →
      Agrees (Holds inputs) answer (program.execute inputs instr config)
        ((code rest).exec meaning fuel scope)) :
    Agrees (Holds inputs) answer (program.execute inputs instr config)
      ((code (requireDepth instr.opcode.requiredDepth :: rest)).exec meaning fuel scope) := by
  have least := instr.opcode.required_depth_le_two
  rw [require_depth_exec fuel tracks _ (by omega)]
  by_cases shallow : config.stack.length < instr.opcode.requiredDepth
  · rw [if_pos shallow, Program.execute_shallow instr shallow]
    rfl
  · rw [if_neg shallow]
    exact agrees (Nat.not_lt.mp shallow)

theorem advance_agrees (tracks : Tracks inputs locals config scope) :
    Agrees (Holds inputs) answer (.next { config with pc := config.pc + 1 })
      ((code [.simple (setPc (config.pc + 1))]).exec meaning fuel scope) := by
  obtain ⟨after, goes, tracksAfter⟩ := set_pc_tracks tracks (config.pc + 1)
  refine ⟨after, ?_, locals, tracksAfter⟩
  have moved : meaning.stmt (.plain (setPc (config.pc + 1))) scope = .next after := goes
  rw [code, Code.exec_simple moved]
  rfl

theorem push_agrees (tracks : Tracks inputs locals config scope)
    (small : config.stack.length < 2 ^ 30) (value : Expr) (word : StackMachine.Word)
    (evaluates : ∀ array sp,
      eval value (locals ++ frame inputs array sp config.pc config.steps) =
        .ok (.long word, locals ++ frame inputs array sp config.pc config.steps)) :
    Agrees (Holds inputs) answer (config.advance (word :: config.stack))
      ((code (push value ++ [.simple (setPc (config.pc + 1))])).exec meaning fuel scope) := by
  obtain ⟨after, pushed, tracksAfter⟩ := push_exec fuel tracks small value word evaluates
    [.simple (setPc (config.pc + 1))]
  rw [pushed]
  exact advance_agrees fuel tracksAfter

theorem halt_agrees (tracks : Tracks inputs locals config scope) :
    Agrees (Holds inputs) answer (config.finish (.halt config.stack))
      ((code halt).exec meaning fuel scope) := by
  have guard := guard_exec fuel _ .emptyStackOnHalt _
    (code [.simple (.answer .ok Render.Java.top)]) (sp_test tracks .eq 0 (by decide))
  refine guard.trans ?_
  cases shape : config.stack with
  | nil => rfl
  | cons top stack =>
      have answered : meaning.stmt (.plain (.answer .ok Render.Java.top)) scope =
          .returned (answer (.halt (top :: stack))) := perform_answer (eval_top tracks shape)
      rw [relate_eq_counts, if_neg (by simp), code, Code.exec_simple_returned answered]

theorem element_of_inputs (position : Nat) (value : StackMachine.Word)
    (found : inputs[position]? = some value) : elementAt inputs position = .ok value := by
  rw [elementAt, if_neg (by omega), Int.toNat_natCast, found]

/-- A position inside the inputs is the same as a `long` and as an `int`. -/
theorem eval_input (tracks : Tracks inputs locals config scope) (few : inputs.length < 2 ^ 31)
    {index : Expr} {place : Int64} (position : Nat) (value : StackMachine.Word)
    (placeIs : place.toInt = position) (found : inputs[position]? = some value)
    (indexIs : ∀ array sp,
      eval index (locals ++ frame inputs array sp config.pc config.steps) =
        .ok (.long place, locals ++ frame inputs array sp config.pc config.steps))
    (array : List StackMachine.Word) (sp : Nat) :
    eval (.element .xs (.toInt index))
        (locals ++ frame inputs array sp config.pc config.steps) =
      .ok (.long value, locals ++ frame inputs array sp config.pc config.steps) := by
  have inside : position < inputs.length := (List.getElem?_eq_some_iff.mp found).1
  have narrowed : eval (.toInt index) (locals ++ frame inputs array sp config.pc config.steps) =
      .ok (.int (Int32.ofInt position), locals ++ frame inputs array sp config.pc config.steps) := by
    rw [← placeIs]
    exact eval_to_int (indexIs array sp) rfl
  refine eval_element (find_xs tracks.temporary) narrowed ?_
  rw [small_to_int position (by omega)]
  exact element_of_inputs position value found

theorem inputs_length (tracks : Tracks inputs locals config scope) :
    eval (.length .xs) scope = .ok (.int (Int32.ofInt inputs.length), scope) := by
  obtain ⟨temporary, slack, rfl, -⟩ := tracks
  exact eval_length (find_xs temporary)

theorem load_cyclic_agrees (tracks : Tracks inputs locals config scope)
    (small : config.stack.length < 2 ^ 30) (few : inputs.length < 2 ^ 31)
    (index : StackMachine.Word) :
    Agrees (Holds inputs) answer
      (match InputMode.cyclic.fetch? inputs index with
      | some value => config.advance (value :: config.stack)
      | none => config.finish (.fault .invalidInputIndex))
      ((code (loadInput index .cyclic (config.pc + 1))).exec meaning fuel scope) := by
  let reduced : Expr := .floorMod (.long index) (.toLong (.length .xs))
  let loaded : Expr := .element .xs (.toInt reduced)
  let rest : List Stmt := push loaded ++ [.simple (setPc (config.pc + 1))]
  have empty : meaning.test (.compare .eq (.length .xs) (.int 0)) scope =
      .ok (decide (inputs.length = 0), scope) := by
    have tested := test_of_eval (eval_compare .eq (inputs_length tracks)
      (show eval (.int 0) scope = _ from rfl) rfl rfl)
    rw [small_to_int inputs.length few] at tested
    rw [← relate_eq_counts]
    exact tested
  have guard : (code (loadInput index .cyclic (config.pc + 1))).exec meaning fuel scope = _ :=
    guard_exec fuel _ .invalidInputIndex _ (code rest) empty
  rw [guard]
  by_cases none : inputs = []
  · subst none
    rfl
  · obtain ⟨position, value, remainder, found, fetched⟩ := InputMode.fetch_cyclic index none
    have positive : 0 < inputs.length := List.length_pos_iff.mpr none
    have below : position < inputs.length := (List.getElem?_eq_some_iff.mp found).1
    have lengthIs : (Int64.ofInt inputs.length).toInt = inputs.length :=
      Int64.toInt_ofInt_of_le (by omega) (by omega)
    have reduces : ∀ array sp,
        eval reduced (locals ++ frame inputs array sp config.pc config.steps) =
          .ok (.long (Int64.ofInt position),
            locals ++ frame inputs array sp config.pc config.steps) := by
      intro array sp
      have count : eval (.toLong (.length .xs))
          (locals ++ frame inputs array sp config.pc config.steps) =
          .ok (.long (Int64.ofInt (Int32.ofInt inputs.length).toInt), _) :=
        eval_to_long (eval_length (find_xs tracks.temporary)) rfl
      rw [small_to_int inputs.length few] at count
      have floored : index.toInt.fmod (Int64.ofInt inputs.length).toInt = position := by
        rw [lengthIs, Int.fmod_eq_emod_of_nonneg _ (by omega), remainder]
      rw [← floored]
      exact eval_floor_mod rfl count (by omega)
    have evaluates := eval_input tracks few position value
      (Int64.toInt_ofInt_of_le (by omega) (by omega)) found reduces
    rw [fetched, if_neg (by simpa using none)]
    exact push_agrees fuel tracks small loaded value evaluates

theorem load_direct_agrees (tracks : Tracks inputs locals config scope)
    (small : config.stack.length < 2 ^ 30) (few : inputs.length < 2 ^ 31)
    (index : StackMachine.Word) :
    Agrees (Holds inputs) answer
      (match InputMode.direct.fetch? inputs index with
      | some value => config.advance (value :: config.stack)
      | none => config.finish (.fault .invalidInputIndex))
      ((code (loadInput index .direct (config.pc + 1))).exec meaning fuel scope) := by
  by_cases negative : index < 0
  · rw [InputMode.fetch_direct_negative negative, loadInput, if_pos negative]
    rfl
  · have above := Word.to_int_nonneg negative
    let loaded : Expr := .element .xs (.toInt (.long index))
    let rest : List Stmt := push loaded ++ [.simple (setPc (config.pc + 1))]
    have tested : meaning.test (.compare .ge (.long index) (.length .xs)) scope =
        .ok (decide (index.toInt ≥ inputs.length), scope) := by
      have compared := test_of_eval (eval_compare .ge (show eval (.long index) scope = _ from rfl)
        (inputs_length tracks) rfl rfl)
      rw [small_to_int inputs.length few] at compared
      exact compared
    have guard := guard_exec fuel _ .invalidInputIndex _ (code rest) tested
    have shape : code (loadInput index .direct (config.pc + 1)) =
        .branch (.compare .ge (.long index) (.length .xs))
          (rowCode [fail .invalidInputIndex]) .done (code rest) := by
      rw [loadInput, if_neg negative]
      rfl
    rw [shape, guard]
    by_cases outside : index.toInt ≥ inputs.length
    · rw [InputMode.fetch_direct_outside (Or.inr outside), if_pos (decide_eq_true outside)]
      rfl
    · obtain ⟨position, value, positionIs, found, fetched⟩ :=
        InputMode.fetch_direct above (Int.not_le.mp outside)
      have evaluates := eval_input tracks few position value positionIs found
        fun array sp => (rfl : eval (.long index) _ = _)
      rw [fetched, if_neg fun holds => outside (of_decide_eq_true holds)]
      exact push_agrees fuel tracks small loaded value evaluates

theorem divisor_check_exec (op : BinaryOp) (left right : StackMachine.Word)
    (rightIs : scope.find .b = some (.long right)) (rest : List Stmt) :
    (code (divisorCheck op ++ rest)).exec meaning fuel scope =
      if (op.eval? left right).isNone then .returned (answer (.fault .divOrModByZero))
      else (code rest).exec meaning fuel scope := by
  have zero : meaning.test (.compare .eq (.var .b) (.long 0)) scope =
      .ok (right == 0, scope) := by
    rw [Word.beq_to_int]
    exact test_of_eval (eval_compare _ (eval_long_var rightIs) eval_zero rfl rfl)
  have guard := guard_exec fuel _ .divOrModByZero _ (code rest) zero
  cases op with
  | div | mod =>
      refine Eq.trans guard ?_
      by_cases isZero : right = 0 <;> simp [BinaryOp.eval?, isZero]
  | add | sub | mul | eq | gt | lt => rfl

theorem binary_agrees (program : Program) (tracks : Tracks inputs [] config scope)
    (small : config.stack.length < 2 ^ 30) (op : BinaryOp) :
    Agrees (Holds inputs) answer (program.execute inputs (.binary op) config)
      ((code (binary op (config.pc + 1))).exec meaning fuel scope) := by
  let ends : List Stmt := push (binaryValue op) ++ [.simple (setPc (config.pc + 1))]
  have body : binary op (config.pc + 1) =
      requireDepth (Instr.binary op).opcode.requiredDepth :: .simple (.declare .b pop) ::
        .simple (.declare .a pop) :: (divisorCheck op ++ ends) := by
    simp only [binary, ends, List.append_assoc]
    rfl
  rw [body]
  refine guarded_agrees fuel program tracks (.binary op) _ fun deep => ?_
  obtain ⟨right, left, stack, shape⟩ := two_entries deep
  obtain ⟨first, popRight, tracksFirst⟩ :=
    pop_tracks tracks right (left :: stack) shape .b (by decide) rfl
  obtain ⟨second, popLeft, tracksSecond⟩ :=
    pop_tracks tracksFirst left stack rfl .a (by decide) rfl
  have rightIs : second.find .b = some (.long right) := by
    obtain ⟨-, slack, rfl, -⟩ := tracksSecond
    rfl
  have popped : (code (.simple (.declare .b pop) :: .simple (.declare .a pop) ::
      (divisorCheck op ++ ends))).exec meaning fuel scope =
      (code (divisorCheck op ++ ends)).exec meaning fuel second :=
    (Code.exec_simple popRight).trans (Code.exec_simple popLeft)
  rw [popped, divisor_check_exec fuel op left right rightIs, Program.execute_binary op shape]
  cases evaluated : op.eval? left right with
  | none => rfl
  | some value =>
      have room : stack.length < 2 ^ 30 := by
        rw [shape] at small
        exact Nat.lt_of_le_of_lt (Nat.le_add_right _ 2) small
      exact push_agrees fuel tracksSecond room _ _ fun _ _ =>
        eval_binary_value op left right value rfl rfl evaluated

theorem unary_agrees (program : Program) (tracks : Tracks inputs [] config scope)
    (small : config.stack.length < 2 ^ 30) (op : UnaryOp) :
    Agrees (Holds inputs) answer (program.execute inputs (.unary op) config)
      ((code (unary op (config.pc + 1))).exec meaning fuel scope) := by
  refine guarded_agrees fuel program tracks (.unary op) _ fun deep => ?_
  obtain ⟨value, stack, shape⟩ := List.exists_cons_of_length_pos deep
  obtain ⟨after, popped, tracksAfter⟩ := pop_tracks tracks value stack shape .a (by decide) rfl
  have room : stack.length < 2 ^ 30 := by
    rw [shape] at small
    exact Nat.lt_of_succ_lt small
  rw [Program.execute_unary op shape]
  change Agrees _ _ _ ((code (.simple (.declare .a pop) ::
    (push (unaryValue op) ++ [.simple (setPc (config.pc + 1))]))).exec meaning fuel scope)
  rw [code, Code.exec_simple popped]
  exact push_agrees fuel tracksAfter room _ _ fun _ _ => eval_unary_value op value rfl

theorem discard_tracks (tracks : Tracks inputs locals config scope) (top : StackMachine.Word)
    (stack : List StackMachine.Word) (shape : config.stack = top :: stack) :
    ∃ after, meaning.stmt (.plain (.decrement .sp)) scope = .next after ∧
      Tracks inputs locals { config with stack := stack } after := by
  obtain ⟨slack, rfl, least, most⟩ := scope_of_cons tracks shape
  refine ⟨_, ?_, tracks_of_slack tracks.temporary top stack slack rfl least most⟩
  simp only [meaning, perform, lower_sp tracks.temporary
    (Nat.lt_of_le_of_lt (Nat.le_add_right _ _) most), attempt]

theorem exchange_exec (tracks : Tracks inputs [] config scope) (upper lower : StackMachine.Word)
    (stack : List StackMachine.Word) (shape : config.stack = upper :: lower :: stack)
    (rest : List Stmt) :
    ∃ after locals, (code (stackEffect .swap ++ rest)).exec meaning fuel scope =
        (code rest).exec meaning fuel after ∧
      Tracks inputs locals { config with stack := lower :: upper :: stack } after := by
  obtain ⟨declared, declares, tracksDeclared⟩ :=
    declare_tracks tracks .t (.long upper) (by decide) rfl
  have remembered : meaning.stmt (.plain (.declare .t Render.Java.top)) scope = .next declared := by
    rw [perform_declare (eval_top tracks shape), declares]
  have temporary := tracksDeclared.temporary
  obtain ⟨slack, rfl, least, most⟩ := scope_of_cons tracksDeclared shape
  rw [List.length_cons] at least most
  let below := stack.reverse
  have depth : stack.length + 1 + 1 = below.length + 2 := by simp [below]
  have nextDepth : stack.length + 1 + 1 = (below ++ [lower]).length + 1 := by simp [below]
  let held := fun (second first : StackMachine.Word) =>
    [(Var.t, Value.long upper)] ++ frame inputs (below ++ second :: first :: slack)
      (stack.length + 1 + 1) config.pc config.steps
  have heldAs : ∀ first : StackMachine.Word, held lower first =
      [(Var.t, Value.long upper)] ++ frame inputs ((below ++ [lower]) ++ first :: slack)
        (stack.length + 1 + 1) config.pc config.steps := by
    simp [held]
  have begun : [(Var.t, Value.long upper)] ++ frame inputs ((lower :: stack).reverse ++
      upper :: slack) (stack.length + 1 + 1) config.pc config.steps = held lower upper := by
    simp [held, below]
  have read : eval (.element .stack (beneath 2)) (held lower upper) =
      .ok (.long lower, held lower upper) :=
    eval_entry temporary below (upper :: slack) lower 2 _ _ _ depth (by omega)
  have copied : meaning.stmt (.plain (.store .stack (beneath 1) (.element .stack (beneath 2))))
      (held lower upper) = .next (held lower lower) := by
    rw [heldAs] at read
    rw [heldAs, heldAs]
    exact store_entry temporary _ slack upper lower 1 _ _ _ _ nextDepth (by omega) read
  have written : meaning.stmt (.plain (.store .stack (beneath 2) (.var .t))) (held lower lower) =
      .next (held upper lower) :=
    store_entry temporary below (lower :: slack) lower upper 2 _ _ _ _ depth (by omega)
      (eval_long_var rfl)
  refine ⟨held upper lower, [(.t, .long upper)], ?_, tracks_of_cons temporary lower (upper :: stack)
    slack (by simp [held, below]) (by simpa using least) (by simpa using most)⟩
  change (code (.simple (.declare .t Render.Java.top) ::
    .simple (.store .stack (beneath 1) (.element .stack (beneath 2))) ::
    .simple (.store .stack (beneath 2) (.var .t)) :: rest)).exec meaning fuel scope = _
  rw [List.length_cons, begun] at remembered
  rw [code, Code.exec_simple remembered, code, Code.exec_simple copied, code,
    Code.exec_simple written]

theorem stack_agrees (program : Program) (tracks : Tracks inputs [] config scope)
    (small : config.stack.length < 2 ^ 30) (op : StackOp) :
    Agrees (Holds inputs) answer (program.execute inputs (.stack op) config)
      ((code (stack op (config.pc + 1))).exec meaning fuel scope) := by
  refine guarded_agrees fuel program tracks (.stack op) _ fun deep => ?_
  cases op with
  | dup =>
      obtain ⟨top, stack, shape⟩ := List.exists_cons_of_length_pos deep
      obtain ⟨after, declared, tracksAfter⟩ :=
        declare_tracks tracks .a (.long top) (by decide) rfl
      have copied : meaning.stmt (.plain (.declare .a Render.Java.top)) scope = .next after := by
        rw [perform_declare (eval_top tracks shape), declared]
      have agrees := push_agrees fuel tracksAfter small (.var .a) top fun _ _ => eval_long_var rfl
      rw [Program.execute_dup shape]
      rw [shape] at agrees
      exact (Code.exec_simple copied).symm ▸ agrees
  | swap =>
      obtain ⟨upper, lower, stack, shape⟩ := two_entries deep
      obtain ⟨after, locals, exchanged, tracksAfter⟩ := exchange_exec fuel tracks upper lower stack
        shape [.simple (setPc (config.pc + 1))]
      rw [Program.execute_swap shape]
      exact exchanged.symm ▸ advance_agrees fuel tracksAfter
  | pop =>
      obtain ⟨top, stack, shape⟩ := List.exists_cons_of_length_pos deep
      obtain ⟨after, discarded, tracksAfter⟩ := discard_tracks tracks top stack shape
      rw [Program.execute_pop shape]
      change Agrees _ _ _ ((code (.simple (.decrement .sp) ::
        [.simple (setPc (config.pc + 1))])).exec meaning fuel scope)
      rw [code, Code.exec_simple discarded]
      exact advance_agrees fuel tracksAfter

theorem jump_tracks (tracks : Tracks inputs locals config scope) (position : Nat) :
    ∃ after, (rowCode [setPc position]).exec meaning fuel scope = .next after ∧
      Tracks inputs locals { config with pc := position } after := by
  obtain ⟨after, goes, tracksAfter⟩ := set_pc_tracks tracks position
  exact ⟨after, Code.exec_simple goes, tracksAfter⟩

theorem jump_agrees (program : Program) (stack : List StackMachine.Word)
    (tracks : Tracks inputs locals { config with stack := stack } scope)
    (target : StackMachine.Word) :
    Agrees (Holds inputs) answer (program.takeJump target config stack)
      ((rowCode [jump ((program.jumpMode.resolve? program.length target).map fun position =>
        (position : Int))]).exec meaning fuel scope) := by
  rw [Program.takeJump]
  cases program.jumpMode.resolve? program.length target with
  | none => rfl
  | some position =>
      obtain ⟨after, goes, tracksAfter⟩ := jump_tracks fuel tracks position
      exact ⟨after, goes, locals, tracksAfter⟩

theorem branch_agrees (program : Program) (tracks : Tracks inputs [] config scope)
    (condition : Condition) (target : StackMachine.Word) :
    Agrees (Holds inputs) answer (program.execute inputs (.branch condition target) config)
      ((code (branch condition ((program.jumpMode.resolve? program.length target).map
        fun position => (position : Int)) (config.pc + 1))).exec meaning fuel scope) := by
  refine guarded_agrees fuel program tracks (.branch condition target) _ fun deep => ?_
  obtain ⟨value, stack, shape⟩ := List.exists_cons_of_length_pos deep
  obtain ⟨after, popped, tracksAfter⟩ := pop_tracks tracks value stack shape .c (by decide) rfl
  have tested : meaning.test (conditionTest condition) after =
      .ok (condition.holds value, after) := by
    obtain ⟨-, slack, rfl, -⟩ := tracksAfter
    exact test_of_eval (eval_condition_test condition value rfl)
  rw [Program.execute_branch condition target shape, Program.takeJump]
  cases resolved : program.jumpMode.resolve? program.length target with
  | none =>
      have guard := guard_exec fuel (conditionTest condition) .badJumpTarget _
        (code [.simple (setPc (config.pc + 1))]) tested
      change Agrees _ _ _ ((code (.simple (.declare .c pop) ::
        [.ifThen (conditionTest condition) [jump none], .simple (setPc (config.pc + 1))])).exec
          meaning fuel scope)
      rw [code, Code.exec_simple popped, code, jump, guard]
      cases condition.holds value with
      | true => rfl
      | false => exact advance_agrees fuel tracksAfter
  | some position =>
      change Agrees _ _ _ ((code (.simple (.declare .c pop) ::
        [.ifElse (conditionTest condition) [jump (some (position : Int))]
          [setPc (config.pc + 1)]])).exec meaning fuel scope)
      rw [code, Code.exec_simple popped, code, code, Code.exec_last_branch tested]
      cases condition.holds value with
      | true =>
          obtain ⟨there, goes, tracksThere⟩ := jump_tracks fuel tracksAfter position
          exact ⟨_, congrArg _ goes, _, leave_tracks [] tracksAfter tracksThere⟩
      | false =>
          obtain ⟨there, goes, tracksThere⟩ := jump_tracks fuel tracksAfter (config.pc + 1)
          exact ⟨_, congrArg _ goes, _, leave_tracks [] tracksAfter tracksThere⟩

theorem execute_agrees (program : Program) (tracks : Tracks inputs [] config scope)
    (small : config.stack.length < 2 ^ 30) (few : inputs.length < 2 ^ 31) (instr : Instr) :
    Agrees (Holds inputs) answer (program.execute inputs instr config)
      ((code (body (.ofInstr program config.pc instr)).1).exec meaning fuel scope) := by
  cases instr with
  | halt => exact halt_agrees fuel tracks
  | pushConst value =>
      exact push_agrees fuel tracks small (.long value) value fun _ _ => rfl
  | loadInput index =>
      change Agrees _ _ _ ((code (loadInput index program.inputMode (config.pc + 1))).exec
        meaning fuel scope)
      rw [Program.execute_load]
      cases program.inputMode with
      | cyclic => exact load_cyclic_agrees fuel tracks small few index
      | direct => exact load_direct_agrees fuel tracks small few index
  | binary op => exact binary_agrees fuel program tracks small op
  | unary op => exact unary_agrees fuel program tracks small op
  | stack op => exact stack_agrees fuel program tracks small op
  | jump target => exact jump_agrees fuel program config.stack tracks target
  | branch condition target => exact branch_agrees fuel program tracks condition target

/-- What holds before every turn of the loop. The depth of the stack is bounded by the steps that
were counted, and these by the budget. -/
structure Runs (program : Program) (inputs : List StackMachine.Word) (config : Config)
    (scope : Scope) : Prop where
  tracks : Tracks inputs [] config scope
  inside : config.pc ≤ program.length
  depth : config.stack.length ≤ config.steps
  counted : config.steps ≤ program.budget

theorem arm_test_tracks (tracks : Tracks inputs locals config scope) (position : Nat)
    (inside : config.pc < 2 ^ 31) (small : position < 2 ^ 31) :
    meaning.test (armTest position) scope = .ok (decide (config.pc = position), scope) := by
  obtain ⟨temporary, slack, rfl, -⟩ := tracks
  have reached : eval (.var .pc) (locals ++ frame inputs (config.stack.reverse ++ slack)
      config.stack.length config.pc config.steps) = .ok (.int (Int32.ofInt config.pc), _) :=
    eval_int_var (find_pc temporary)
  have tested := test_of_eval (eval_compare .eq reached
    (show eval (.int position) _ = _ from rfl) rfl rfl)
  rw [small_to_int config.pc inside, small_to_int position small, relate_eq_counts] at tested
  exact tested

theorem leaving_agrees (tracks : Tracks inputs [] config scope) {transition : Transition}
    {outcome : Ran} (agrees : Agrees (Holds inputs) answer transition outcome) :
    Agrees (Tracks inputs []) answer transition (outcome.leaving (meaning.leave scope)) := by
  refine agrees.leaving fun following after ⟨declared, tracksAfter⟩ => ?_
  refine leave_tracks declared tracks ?_
  rw [List.append_nil]
  exact tracksAfter

/-- One turn of the loop is one step of the machine. -/
theorem turn_agrees (program : Program) (short : program.length ≤ 2 ^ 30)
    (few : inputs.length < 2 ^ 31) (tracks : Tracks inputs [] config scope)
    (inside : config.pc ≤ program.length) (small : config.stack.length < 2 ^ 30) :
    Agrees (Tracks inputs []) answer (program.step inputs config)
      (((armsFrom program 0 program.code).exec meaning fuel scope).leaving
        (meaning.leave scope)) := by
  have tests := fun pc (below : pc < program.length) =>
    arm_test_tracks tracks pc (by omega) (by omega)
  refine chain_agrees program fuel tests (Scope.leave_leave scope) (halt_agrees fuel tracks)
    fun instr _ => ?_
  obtain ⟨counted, counts, tracksCounted⟩ := increment_tracks tracks
  rw [armCode, Code.exec_simple counts]
  exact leaving_agrees tracks (execute_agrees fuel program tracksCounted small few instr)

theorem loop_test_tracks (program : Program) (tracks : Tracks inputs locals config scope)
    (counted : config.steps ≤ program.budget) :
    meaning.test (loopTest program) scope =
      .ok (decide (config.steps < program.budget), scope) := by
  obtain ⟨temporary, slack, rfl, -⟩ := tracks
  have budget := program.budget_is
  have limit := program.budget_lt
  have stepsIs : (Int64.ofInt config.steps).toInt = config.steps :=
    Int64.toInt_ofInt_of_le (by omega) (by omega)
  have spent : eval (.var .steps) (locals ++ frame inputs (config.stack.reverse ++ slack)
      config.stack.length config.pc config.steps) = .ok (.long (Int64.ofInt config.steps), _) :=
    eval_long_var (find_steps temporary)
  have tested := test_of_eval (eval_compare .lt spent
    (show eval (.long program.maxSteps) _ = _ from rfl) rfl rfl)
  have compared : relate .lt (config.steps : Int) program.maxSteps.toInt =
      decide (config.steps < program.budget) := by
    rw [relate]
    exact decide_eq_decide.mpr (by omega)
  rw [stepsIs, compared] at tested
  exact tested

theorem runs_turn (program : Program) (short : program.length ≤ 2 ^ 30)
    (limited : program.budget ≤ 2 ^ 30) (few : inputs.length < 2 ^ 31)
    (runs : Runs program inputs config scope) (left : config.steps < program.budget) :
    Agrees (Runs program inputs) answer (program.step inputs config)
      (((armsFrom program 0 program.code).exec meaning fuel scope).leaving
        (meaning.leave scope)) := by
  have small : config.stack.length < 2 ^ 30 :=
    Nat.lt_of_le_of_lt runs.depth (Nat.lt_of_lt_of_le left limited)
  have turned := turn_agrees fuel program short few runs.tracks runs.inside small
  refine turned.after_step fun following after stepped tracks => ?_
  have follows := Program.step_next config following stepped
  refine ⟨tracks, follows.pc, follows.shallow runs.depth, ?_⟩
  rw [follows.steps]
  exact left

theorem loop_returns (program : Program) (short : program.length ≤ 2 ^ 30)
    (limited : program.budget ≤ 2 ^ 30) (few : inputs.length < 2 ^ 31)
    (tracks : Tracks inputs [] .start scope) (enough : program.budget < fuel) :
    (loopCode program).exec meaning fuel scope =
      .returned (answer (program.evaluate inputs)) := by
  apply loop_answers program (Runs program inputs) fuel
  · exact fun _ _ runs => loop_test_tracks program runs.tracks runs.counted
  · exact fun _ _ runs left => runs_turn fuel program short limited few runs left
  · exact fun scope => fail_returns fuel .stepLimit .done
  · exact ⟨tracks, Nat.zero_le _, Nat.le_refl _, Nat.zero_le _⟩
  · exact Nat.zero_add _
  · exact enough

/-- The body of a rendered method, on a scope that holds the inputs and nothing else. -/
theorem method_returns (program : Program) (short : program.length ≤ 2 ^ 30)
    (limited : program.budget ≤ 2 ^ 30) (few : inputs.length < 2 ^ 31)
    (enough : program.budget < fuel) :
    (methodCode program).exec meaning fuel [(.xs, .array inputs)] =
      .returned (answer (program.evaluate inputs)) := by
  have tracks : Tracks inputs [] .start (frame inputs (List.replicate 16 0) 0 0 0) :=
    ⟨by simp [AllTemporary], List.replicate 16 0, rfl, by decide, by decide⟩
  have entered : (methodCode program).exec meaning fuel [(.xs, .array inputs)] =
      (loopCode program).exec meaning fuel (frame inputs (List.replicate 16 0) 0 0 0) := rfl
  rw [entered]
  exact loop_returns fuel program short limited few tracks enough

/-- For every program whose positions and budget fit an `int` twice over, every valid name and all
inputs that fit an array, the rendered method terminates, throws nothing and returns the status and
the value of the run. -/
theorem java_answers (program : Program) (name : Text) (inputs : List StackMachine.Word)
    (valid : Language.isFunctionName .java name = true) (short : program.length ≤ 2 ^ 30)
    (limited : program.maxSteps.toInt ≤ 2 ^ 30) (few : inputs.length < 2 ^ 31) :
    Ends (fun fuel => call fuel (Language.java.render name program) name inputs)
      (.returned [Int64.ofInt (program.evaluate inputs).status.code,
        (program.evaluate inputs).value]) := by
  refine ⟨program.budget + 1, fun fuel enough => ?_⟩
  have small : program.length < 2 ^ 31 := Nat.lt_of_le_of_lt short (by decide)
  have budget : program.budget ≤ 2 ^ 30 := by
    rw [Program.budget]
    omega
  simp only [call, read_rendered name program valid small, programCode, if_true]
  exact method_returns fuel program short budget few enough

/-- The least word divided by minus one wraps around, and nothing is thrown. -/
theorem java_answers_wrapped_quotient :
    let program : Program :=
      ⟨[.pushConst Int64.minValue, .loadInput (-1), .binary .div, .halt], 64, .error, .cyclic,
        by decide, by decide⟩
    Ends (fun fuel => call fuel (Language.java.render "f" program) "f" [3, -1])
      (.returned [0, -9223372036854775808]) := by
  intro program
  have ran : program.evaluate [3, -1] = ⟨.ok, Int64.minValue⟩ := by decide +kernel
  have answered := java_answers program "f" [3, -1] (by decide +kernel) (by decide) (by decide)
    (by decide)
  rw [ran] at answered
  exact answered

end StackMachine.Java

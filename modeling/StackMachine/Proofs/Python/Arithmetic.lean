import StackMachine.Proofs.Machine.Step
import StackMachine.Proofs.Python.Meaning

/-!
# The arithmetic of rendered Python

Unbounded integers stand for words by their signed values. Masking and shifting down brings any
integer back to the word with the same low bits, and dividing absolute values rounds towards zero, so
that each value the renderer writes for an operation is the value of the operation on words.
-/

namespace StackMachine.Python

open StackMachine.Render StackMachine.Render.Python StackMachine.Source

set_option autoImplicit false

theorem nat_mask (value : Nat) :
    Nat.ldiff (2 ^ 64 - 1) value = 2 ^ 64 - (value % 2 ^ 64 + 1) := by
  have bound : value % 2 ^ 64 < 2 ^ 64 := Nat.mod_lt _ (by decide)
  apply Nat.eq_of_testBit_eq
  intro place
  rw [Nat.testBit_ldiff, Nat.testBit_two_pow_sub_one, Nat.testBit_two_pow_sub_succ bound,
    Nat.testBit_mod_two_pow]
  by_cases inside : place < 64 <;> simp [inside]

/-- The low bits of a negative number are those of its two's complement. -/
theorem land_mask (value : Int) : Int.land value 0xFFFFFFFFFFFFFFFF = value % 2 ^ 64 := by
  cases value with
  | ofNat value =>
      have masked : value &&& (2 ^ 64 - 1) = value % 2 ^ 64 := Nat.and_two_pow_sub_one_eq_mod _ _
      change ((value &&& (2 ^ 64 - 1) : Nat) : Int) = (value : Int) % 2 ^ 64
      rw [masked]
      rfl
  | negSucc below =>
      change ((Nat.ldiff (2 ^ 64 - 1) below : Nat) : Int) = Int.negSucc below % 2 ^ 64
      rw [nat_mask]
      omega

theorem wrapped (value : Int) :
    (Int64.ofInt value).toInt =
      if value % 2 ^ 64 ≥ 2 ^ 63 then value % 2 ^ 64 - 2 ^ 64 else value % 2 ^ 64 := by
  rw [Int64.toInt_ofInt, Int.bmod_def]
  have size : ((Int64.size : Nat) : Int) = 2 ^ 64 := rfl
  rw [size]
  split <;> split <;> omega

/-- The helpers that are in force in the loop of a rendered function. -/
def helpers : List Helper := [truncDivHelper, wrapHelper]

variable (inner : Calls)

theorem call_abs (value : Int) :
    callHelper inner helpers Word.abs.text [.int value] = .ok (.int value.natAbs) := by
  have none : (helpers.find? fun helper => helper.name = Word.abs.text) = none := by
    decide +kernel
  rw [callHelper, none]
  rfl

theorem call_len (elements : List Int) :
    callHelper inner helpers Word.len.text [.list elements] = .ok (.int elements.length) := by
  have none : (helpers.find? fun helper => helper.name = Word.len.text) = none := by
    decide +kernel
  rw [callHelper, none]
  rfl

theorem call_wrap (value : Int) :
    callHelper inner helpers Word.wrap.text [.int value] =
      .ok (.int (Int64.ofInt value).toInt) := by
  have found : (helpers.find? fun helper => helper.name = Word.wrap.text) = some wrapHelper := by
    decide +kernel
  let before : Scope := Scope.empty.set .v (.int value)
  let low : Int := value % 2 ^ 64
  let after : Scope := before.set .v (.int low)
  have masked : perform inner (.mask .v (.hex 0xFFFFFFFFFFFFFFFF)) before = .next after := by
    change Outcome.next (before.set .v (.int (Int.land value 0xFFFFFFFFFFFFFFFF))) = _
    rw [land_mask]
  have known : eval inner (.var .v) after = .ok (.int low, after) := eval_var rfl
  have tested : eval inner (.compare .ge (.var .v) (.hex 0x8000000000000000)) after =
      .ok (.ofBool (low ≥ 2 ^ 63), after) := eval_compare _ known rfl
  have lowered : eval inner (.arith .sub (.var .v) (.hex 0x10000000000000000)) after =
      .ok (.int (low - 2 ^ 64), after) := eval_arith known rfl rfl
  have signed : eval inner (.conditional
      (.arith .sub (.var .v) (.hex 0x10000000000000000))
      (.compare .ge (.var .v) (.hex 0x8000000000000000)) (.var .v)) after =
      .ok (.int (Int64.ofInt value).toInt, after) := by
    rw [eval_conditional tested, lowered, known, wrapped]
    by_cases high : value % 2 ^ 64 ≥ 2 ^ 63
    · rw [if_pos (decide_eq_true high), if_pos high]
    · rw [if_neg fun holds => high (of_decide_eq_true holds), if_neg high]
  apply call_helper found rfl
  change (perform inner (.mask .v (.hex 0xFFFFFFFFFFFFFFFF)) before).andThen _ = _
  rw [masked, Outcome.and_then_next, performAll, perform, signed]
  rfl

theorem trunc_of_abs (dividend divisor : Int) :
    dividend.tdiv divisor =
      if (dividend < 0) ≠ (divisor < 0) then -((dividend.natAbs : Int).fdiv divisor.natAbs)
      else (dividend.natAbs : Int).fdiv divisor.natAbs := by
  rw [Int.fdiv_eq_tdiv_of_nonneg (Int.natCast_nonneg _) (Int.natCast_nonneg _)]
  have magnitude : ∀ value : Int, (value.natAbs : Int) = if value < 0 then -value else value := by
    intro value
    split <;> omega
  rw [magnitude, magnitude]
  by_cases below : dividend < 0 <;> by_cases divisorBelow : divisor < 0 <;>
    simp [below, divisorBelow]

theorem trunc_div_found :
    (helpers.find? fun helper => helper.name = Word.truncDiv.text) = some truncDivHelper := by
  decide +kernel

theorem call_trunc_div (dividend divisor : Int) (nonzero : divisor ≠ 0) :
    callHelper builtin helpers Word.truncDiv.text [.int dividend, .int divisor] =
      .ok (.int (dividend.tdiv divisor)) := by
  let before : Scope := (Scope.empty.set .b (.int divisor)).set .a (.int dividend)
  let quotient : Int := (dividend.natAbs : Int).fdiv divisor.natAbs
  let after : Scope := before.set .q (.int quotient)
  have divided : eval builtin (.arith .floorDiv (.abs (.var .a)) (.abs (.var .b))) before =
      .ok (.int quotient, before) := by
    refine eval_arith (eval_abs (eval_var rfl) rfl) (eval_abs (eval_var rfl) rfl) ?_
    rw [operate, if_neg (by omega)]
  have sign : ∀ (name : Var) (value : Int), after name = some (.int value) →
      eval builtin (.group (.compare .lt (.var name) (.int 0))) after =
        .ok (.int (if decide (value < 0) then 1 else 0), after) := by
    intro name value known
    exact eval_compare _ (eval_var known) rfl
  have tested := eval_compare .ne (sign .a dividend rfl) (sign .b divisor rfl)
  have known : eval builtin (.var .q) after = .ok (.int quotient, after) := eval_var rfl
  have chosen : eval builtin (.conditional (.neg (.var .q))
      (.compare .ne (.group (.compare .lt (.var .a) (.int 0)))
        (.group (.compare .lt (.var .b) (.int 0)))) (.var .q)) after =
      .ok (.int (dividend.tdiv divisor), after) := by
    rw [eval_conditional tested, eval_neg known, known, trunc_of_abs]
    by_cases below : dividend < 0 <;> by_cases divisorBelow : divisor < 0 <;>
      simp [relate, below, divisorBelow, quotient]
  apply call_helper trunc_div_found rfl
  change (perform builtin (.assign .q (.arith .floorDiv (.abs (.var .a)) (.abs (.var .b))))
    before).andThen _ = _
  rw [perform, divided, attempt, Outcome.and_then_next, performAll, perform, chosen]
  rfl

theorem call_trunc_div_nowhere (dividend divisor : Int) :
    callHelper nowhere helpers Word.truncDiv.text [.int dividend, .int divisor] =
      .error .type :=
  call_helper_failed trunc_div_found rfl rfl

section

variable {scope : Scope}

theorem eval_flag {calls : Calls} {test : Expr} {condition : Bool}
    (testIs : eval calls test scope = .ok (.ofBool condition, scope)) :
    eval calls (flag test) scope = .ok (.int (Word.ofBool condition).toInt, scope) := by
  rw [flag, eval_conditional testIs, Word.of_bool_to_int]
  cases condition <;> rfl

theorem eval_wrapped {operand : Expr} {value : Int}
    (operandIs : eval (callHelper inner helpers) operand scope = .ok (.int value, scope)) :
    eval (callHelper inner helpers) (.wrap operand) scope =
      .ok (.int (Int64.ofInt value).toInt, scope) :=
  eval_wrap operandIs (call_wrap inner value)

/-- The expression written for an operation has the value of the operation, if the functions are in
reach that quotients need. -/
theorem eval_binary_value (op : BinaryOp) (left right value : StackMachine.Word)
    (reached : op = .div ∨ op = .mod → inner = builtin)
    (leftIs : scope .a = some (.int left.toInt)) (rightIs : scope .b = some (.int right.toInt))
    (evaluated : op.eval? left right = some value) :
    eval (callHelper inner helpers) (binaryValue op) scope = .ok (.int value.toInt, scope) := by
  have evalLeft : eval (callHelper inner helpers) (.var .a) scope = .ok (.int left.toInt, scope) :=
    eval_var leftIs
  have evalRight :
      eval (callHelper inner helpers) (.var .b) scope = .ok (.int right.toInt, scope) :=
    eval_var rightIs
  cases op with
  | add =>
      cases evaluated
      rw [Word.add_wraps]
      exact eval_wrapped _ (eval_arith evalLeft evalRight rfl)
  | sub =>
      cases evaluated
      rw [Word.sub_wraps]
      exact eval_wrapped _ (eval_arith evalLeft evalRight rfl)
  | mul =>
      cases evaluated
      rw [Word.mul_wraps]
      exact eval_wrapped _ (eval_arith evalLeft evalRight rfl)
  | div =>
      obtain ⟨divisor, rfl⟩ := BinaryOp.value_of_div evaluated
      rw [reached (.inl rfl)] at evalLeft evalRight ⊢
      exact eval_wrapped _ (eval_trunc_div evalLeft evalRight (call_trunc_div _ _ divisor))
  | mod =>
      obtain ⟨divisor, rfl⟩ := BinaryOp.value_of_mod evaluated
      rw [reached (.inr rfl)] at evalLeft evalRight ⊢
      have quotient := eval_trunc_div evalLeft evalRight (call_trunc_div _ _ divisor)
      have remainder : left.toInt.tmod right.toInt =
          left.toInt - left.toInt.tdiv right.toInt * right.toInt := by
        rw [Int.tmod_def, Int.mul_comm]
      rw [remainder]
      exact eval_wrapped _ (eval_arith evalLeft (eval_arith quotient evalRight rfl) rfl)
  | eq =>
      cases evaluated
      rw [Word.beq_to_int]
      exact eval_flag (eval_compare _ evalLeft evalRight)
  | gt =>
      cases evaluated
      rw [Word.gt_to_int]
      exact eval_flag (eval_compare _ evalLeft evalRight)
  | lt =>
      cases evaluated
      rw [Word.lt_to_int]
      exact eval_flag (eval_compare _ evalLeft evalRight)

theorem eval_binary_nowhere (op : BinaryOp) (divides : op = .div ∨ op = .mod) (left right : Int)
    (leftIs : scope .a = some (.int left)) (rightIs : scope .b = some (.int right)) :
    eval (callHelper nowhere helpers) (binaryValue op) scope = .error .type := by
  have evalLeft : eval (callHelper nowhere helpers) (.var .a) scope = .ok (.int left, scope) :=
    eval_var leftIs
  have evalRight : eval (callHelper nowhere helpers) (.var .b) scope = .ok (.int right, scope) :=
    eval_var rightIs
  have failed : eval (callHelper nowhere helpers) (.truncDiv (.var .a) (.var .b)) scope =
      .error .type := by
    rw [eval, evalLeft]
    simp only [bind, Except.bind, evalRight, call_trunc_div_nowhere]
  have product : eval (callHelper nowhere helpers)
      (.arith .mul (.truncDiv (.var .a) (.var .b)) (.var .b)) scope = .error .type := by
    rw [eval, failed]
    rfl
  rcases divides with rfl | rfl
  · rw [binaryValue, eval, failed]
    rfl
  · rw [binaryValue, eval, eval, evalLeft]
    simp only [bind, Except.bind, product]

theorem eval_unary_value (op : UnaryOp) (value : StackMachine.Word)
    (valueIs : scope .a = some (.int value.toInt)) :
    eval (callHelper inner helpers) (unaryValue op) scope =
      .ok (.int (op.eval value).toInt, scope) := by
  have evalValue :
      eval (callHelper inner helpers) (.var .a) scope = .ok (.int value.toInt, scope) :=
    eval_var valueIs
  cases op with
  | neg =>
      rw [UnaryOp.eval, Word.neg_wraps]
      exact eval_wrapped inner (eval_neg evalValue)
  | abs =>
      rw [UnaryOp.eval, Word.abs_wraps]
      exact eval_wrapped inner (eval_abs evalValue (call_abs inner _))
  | isZero =>
      rw [UnaryOp.eval, Word.beq_to_int]
      exact eval_flag (eval_compare _ evalValue rfl)

theorem eval_condition_test {calls : Calls} (condition : Condition) (value : StackMachine.Word)
    (valueIs : scope .c = some (.int value.toInt)) :
    eval calls (conditionTest condition) scope = .ok (.ofBool (condition.holds value), scope) := by
  cases condition with
  | ifZero =>
      rw [Condition.holds, Word.beq_to_int]
      exact eval_compare _ (eval_var valueIs) rfl
  | ifNonzero =>
      rw [Condition.holds, bne, Word.beq_to_int]
      exact eval_compare _ (eval_var valueIs) rfl

end

end StackMachine.Python

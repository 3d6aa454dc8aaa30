import StackMachine.Proofs.Java.Meaning
import StackMachine.Proofs.Machine.Step

/-!
# The arithmetic of rendered Java

A `long` holds a word, and each expression that the renderer writes for an operation has the value
of the operation on words: wrapping needs no help in Java, and the one quotient out of range wraps as
well.
-/

namespace StackMachine.Java

open StackMachine.Render StackMachine.Render.Java StackMachine.Source

set_option autoImplicit false

variable {scope : Scope}

theorem value_of_find {name : Var} {value : Value} (found : scope.find name = some value) :
    valueOf scope name = .ok value := by
  rw [valueOf, found]

theorem eval_long_var {name : Var} {value : StackMachine.Word}
    (found : scope.find name = some (.long value)) :
    eval (.var name) scope = .ok (.long value, scope) := by
  have same : Int64.ofInt value.toInt = value := Int64.ofInt_toInt value
  simp only [eval, value_of_find found, bind, Except.bind, Value.number, Number.wrap, if_true, same]

theorem eval_int_var {name : Var} {value : Int32} (found : scope.find name = some (.int value)) :
    eval (.var name) scope = .ok (.int value, scope) := by
  have same : Int32.ofInt value.toInt = value := Int32.ofInt_toInt value
  simp only [eval, value_of_find found, bind, Except.bind, Value.number, Number.wrap,
    Bool.false_eq_true, if_false, same]

theorem eval_arith {operator : Operator} {left right : Expr} {leftValue rightValue : Value}
    {leftNumber rightNumber : Number} {result : Value}
    (leftIs : eval left scope = .ok (leftValue, scope))
    (rightIs : eval right scope = .ok (rightValue, scope))
    (leftCounts : leftValue.number = .ok leftNumber)
    (rightCounts : rightValue.number = .ok rightNumber)
    (operated : operate operator leftNumber rightNumber = .ok result) :
    eval (.arith operator left right) scope = .ok (result, scope) := by
  simp only [eval, leftIs, rightIs, bind, Except.bind, leftCounts, rightCounts, operated]

theorem eval_compare (relation : Relation) {left right : Expr} {leftValue rightValue : Value}
    {leftNumber rightNumber : Number}
    (leftIs : eval left scope = .ok (leftValue, scope))
    (rightIs : eval right scope = .ok (rightValue, scope))
    (leftCounts : leftValue.number = .ok leftNumber)
    (rightCounts : rightValue.number = .ok rightNumber) :
    eval (.compare relation left right) scope =
      .ok (.truth (relate relation leftNumber.value rightNumber.value), scope) := by
  simp only [eval, leftIs, rightIs, bind, Except.bind, leftCounts, rightCounts]

theorem eval_to_int {operand : Expr} {value : Value} {number : Number}
    (operandIs : eval operand scope = .ok (value, scope)) (counts : value.number = .ok number) :
    eval (.toInt operand) scope = .ok (.int (Int32.ofInt number.value), scope) := by
  simp only [eval, operandIs, bind, Except.bind, counts]
  rfl

theorem eval_to_long {operand : Expr} {value : Value} {number : Number}
    (operandIs : eval operand scope = .ok (value, scope)) (counts : value.number = .ok number) :
    eval (.toLong operand) scope = .ok (.long (Int64.ofInt number.value), scope) := by
  simp only [eval, operandIs, bind, Except.bind, counts]
  rfl

theorem eval_floor_mod {left right : Expr} {dividend divisor : Int64}
    (leftIs : eval left scope = .ok (.long dividend, scope))
    (rightIs : eval right scope = .ok (.long divisor, scope)) (nonzero : divisor.toInt ≠ 0) :
    eval (.floorMod left right) scope =
      .ok (.long (Int64.ofInt (dividend.toInt.fmod divisor.toInt)), scope) := by
  simp only [eval, leftIs, rightIs, bind, Except.bind, Value.number, floorRemainder, ne_eq,
    not_true_eq_false, if_false, nonzero]
  rfl

theorem eval_flag {test : Expr} {condition : Bool}
    (testIs : eval test scope = .ok (.truth condition, scope)) :
    eval (flag test) scope = .ok (.long (Word.ofBool condition), scope) := by
  simp only [flag, eval, testIs, bind, Except.bind, Value.condition]
  cases condition <;> rfl

theorem eval_length {array : Var} {elements : List Int64}
    (found : scope.find array = some (.array elements)) :
    eval (.length array) scope = .ok (.int (Int32.ofInt elements.length), scope) := by
  simp only [eval, value_of_find found, bind, Except.bind, Value.elements]

theorem eval_element {array : Var} {elements : List Int64} {index : Expr} {place : Int32}
    {element : Int64} (found : scope.find array = some (.array elements))
    (indexIs : eval index scope = .ok (.int place, scope))
    (selected : elementAt elements place.toInt = .ok element) :
    eval (.element array index) scope = .ok (.long element, scope) := by
  simp only [eval, value_of_find found, bind, Except.bind, Value.elements, indexIs, Value.small,
    selected]

theorem eval_zero : eval (.long 0) scope = .ok (.long 0, scope) := rfl

theorem small_to_int (number : Nat) (small : number < 2 ^ 31) :
    (Int32.ofInt number).toInt = number :=
  Int32.toInt_ofInt_of_le (by omega) (by omega)

theorem eval_binary_value (op : BinaryOp) (left right value : StackMachine.Word)
    (leftIs : scope.find .a = some (.long left)) (rightIs : scope.find .b = some (.long right))
    (evaluated : op.eval? left right = some value) :
    eval (binaryValue op) scope = .ok (.long value, scope) := by
  have evalLeft := eval_long_var leftIs
  have evalRight := eval_long_var rightIs
  cases op with
  | add =>
      cases evaluated
      rw [Word.add_wraps]
      exact eval_arith evalLeft evalRight rfl rfl rfl
  | sub =>
      cases evaluated
      rw [Word.sub_wraps]
      exact eval_arith evalLeft evalRight rfl rfl rfl
  | mul =>
      cases evaluated
      rw [Word.mul_wraps]
      exact eval_arith evalLeft evalRight rfl rfl rfl
  | div =>
      obtain ⟨divisor, rfl⟩ := BinaryOp.value_of_div evaluated
      refine eval_arith evalLeft evalRight rfl rfl ?_
      rw [operate, if_neg divisor]
      rfl
  | mod =>
      obtain ⟨divisor, rfl⟩ := BinaryOp.value_of_mod evaluated
      refine eval_arith evalLeft evalRight rfl rfl ?_
      rw [operate, if_neg divisor]
      rfl
  | eq =>
      cases evaluated
      rw [Word.beq_to_int]
      exact eval_flag (eval_compare _ evalLeft evalRight rfl rfl)
  | gt =>
      cases evaluated
      rw [Word.gt_to_int]
      exact eval_flag (eval_compare _ evalLeft evalRight rfl rfl)
  | lt =>
      cases evaluated
      rw [Word.lt_to_int]
      exact eval_flag (eval_compare _ evalLeft evalRight rfl rfl)

theorem eval_unary_value (op : UnaryOp) (value : StackMachine.Word)
    (valueIs : scope.find .a = some (.long value)) :
    eval (unaryValue op) scope = .ok (.long (op.eval value), scope) := by
  have evalValue := eval_long_var valueIs
  cases op with
  | neg =>
      rw [UnaryOp.eval, Word.neg_wraps, unaryValue, eval, evalValue]
      rfl
  | abs =>
      rw [UnaryOp.eval, Word.abs_wraps, unaryValue, eval, evalValue]
      rfl
  | isZero =>
      rw [UnaryOp.eval, Word.beq_to_int]
      exact eval_flag (eval_compare _ evalValue eval_zero rfl rfl)

theorem eval_condition_test (condition : Condition) (value : StackMachine.Word)
    (valueIs : scope.find .c = some (.long value)) :
    eval (conditionTest condition) scope = .ok (.truth (condition.holds value), scope) := by
  have evalValue := eval_long_var valueIs
  cases condition with
  | ifZero =>
      rw [Condition.holds, Word.beq_to_int]
      exact eval_compare _ evalValue eval_zero rfl rfl
  | ifNonzero =>
      rw [Condition.holds, bne, Word.beq_to_int]
      exact eval_compare _ evalValue eval_zero rfl rfl

end StackMachine.Java

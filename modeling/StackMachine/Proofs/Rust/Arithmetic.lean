import StackMachine.Proofs.Machine.Step
import StackMachine.Proofs.Rust.Meaning

/-!
# The arithmetic of rendered Rust

An `i64` holds a word, and each expression that the renderer writes for an operation has the value of
the operation on words. The wrapping methods need no help; what may panic is guarded by its operands.
-/

namespace StackMachine.Rust

open StackMachine.Render StackMachine.Render.Rust StackMachine.Source

set_option autoImplicit false

variable {scope : Scope}

theorem signed_literal (word : StackMachine.Word) :
    (Value.literal word.toInt).signed = .ok word := by
  have lower : Int64.minValue.toInt ≤ word.toInt := word.minValue_le_toInt
  have upper : word.toInt ≤ Int64.maxValue.toInt := word.toInt_le
  have least : Int64.minValue.toInt = -2 ^ 63 := rfl
  have greatest : Int64.maxValue.toInt = 2 ^ 63 - 1 := rfl
  rw [Value.signed, if_pos (by omega), wrap, Int64.ofInt_toInt]

theorem signed_word (word : StackMachine.Word) : (Value.i64 word).signed = .ok word := rfl

theorem unsigned_count (count : UInt64) : (Value.usize count).unsigned = .ok count := rfl

theorem small_to_nat (number : Nat) (small : number < 2 ^ 64) :
    (UInt64.ofNat number).toNat = number :=
  UInt64.toNat_ofNat_of_lt' small

theorem unsigned_of_count (number : Nat) (small : number < 2 ^ 64) :
    UInt64.ofInt number = UInt64.ofNat number := by
  have inside : ((number : Int) % 2 ^ 64).toNat = number := by omega
  rw [UInt64.ofInt, inside]

theorem unsigned_literal (number : Nat) (small : number < 2 ^ 64) :
    (Value.literal number).unsigned = .ok (UInt64.ofNat number) := by
  rw [Value.unsigned, if_pos (by omega), unsigned_of_count number small]

theorem signed_flag (condition : Bool) :
    (Value.literal (if condition then 1 else 0)).signed = .ok (Word.ofBool condition) := by
  rw [← Word.of_bool_to_int]
  exact signed_literal _

theorem value_of_find {name : Var} {isMutable : Bool} {value : Value}
    (found : scope.find name = some ⟨isMutable, value⟩) : valueOf scope name = .ok value := by
  rw [valueOf, found]

theorem change_of_find {name : Var} {before : Value} (found : scope.find name = some ⟨true, before⟩)
    (value : Value) : change scope name value = .ok (scope.set name ⟨true, value⟩) := by
  rw [change, found]
  rfl

theorem eval_i64_var {name : Var} {isMutable : Bool} {value : StackMachine.Word}
    (found : scope.find name = some ⟨isMutable, .i64 value⟩) :
    eval (.var name) scope = .ok (.i64 value, scope) := by
  simp only [eval, value_of_find found, bind, Except.bind, Value.copied]

theorem eval_usize_var {name : Var} {isMutable : Bool} {value : UInt64}
    (found : scope.find name = some ⟨isMutable, .usize value⟩) :
    eval (.var name) scope = .ok (.usize value, scope) := by
  simp only [eval, value_of_find found, bind, Except.bind, Value.copied]

theorem eval_wrapping {method : Wrapping} {left right : Expr}
    {leftWord rightWord result : StackMachine.Word}
    (leftIs : eval left scope = .ok (.i64 leftWord, scope))
    (rightIs : eval right scope = .ok (.i64 rightWord, scope))
    (applied : applyWrapping method leftWord rightWord = .ok result) :
    eval (.wrapping method left right) scope = .ok (.i64 result, scope) := by
  simp only [eval, leftIs, rightIs, bind, Except.bind, Value.receiver, Value.signed, applied]

theorem eval_wrapping_neg {operand : Expr} {word : StackMachine.Word}
    (operandIs : eval operand scope = .ok (.i64 word, scope)) :
    eval (.wrappingNeg operand) scope = .ok (.i64 (wrap (-word.toInt)), scope) := by
  simp only [eval, operandIs, bind, Except.bind, Value.receiver]

theorem eval_wrapping_abs {operand : Expr} {word : StackMachine.Word}
    (operandIs : eval operand scope = .ok (.i64 word, scope)) :
    eval (.wrappingAbs operand) scope = .ok (.i64 (wrap word.toInt.natAbs), scope) := by
  simp only [eval, operandIs, bind, Except.bind, Value.receiver]

theorem eval_compare (relation : Relation) {left right : Expr} {leftValue rightValue : Value}
    {condition : Bool} (leftIs : eval left scope = .ok (leftValue, scope))
    (rightIs : eval right scope = .ok (rightValue, scope))
    (related : relateValues relation leftValue rightValue = .ok condition) :
    eval (.compare relation left right) scope = .ok (.truth condition, scope) := by
  simp only [eval, leftIs, rightIs, bind, Except.bind, related]

theorem eval_sub {left right : Expr} {leftValue rightValue result : Value}
    (leftIs : eval left scope = .ok (leftValue, scope))
    (rightIs : eval right scope = .ok (rightValue, scope))
    (subtracted : subtract leftValue rightValue = .ok result) :
    eval (.sub left right) scope = .ok (result, scope) := by
  simp only [eval, leftIs, rightIs, bind, Except.bind, subtracted]

theorem eval_flag {test : Expr} {condition : Bool}
    (testIs : eval test scope = .ok (.truth condition, scope)) :
    eval (flag test) scope = .ok (.literal (if condition then 1 else 0), scope) := by
  simp only [flag, eval, testIs, bind, Except.bind, Value.condition]
  cases condition <;> rfl

theorem eval_length {list : Var} {isMutable : Bool} {elements : List Int64}
    (found : scope.find list = some ⟨isMutable, .list elements⟩) :
    eval (.length list) scope = .ok (.usize (UInt64.ofNat elements.length), scope) := by
  simp only [eval, value_of_find found, bind, Except.bind, Value.elements]

theorem eval_is_empty {list : Var} {isMutable : Bool} {elements : List Int64}
    (found : scope.find list = some ⟨isMutable, .list elements⟩) :
    eval (.isEmpty list) scope = .ok (.truth elements.isEmpty, scope) := by
  simp only [eval, value_of_find found, bind, Except.bind, Value.elements]

theorem eval_element {list : Var} {isMutable : Bool} {elements : List Int64} {index : Expr}
    {indexValue : Value} {place : UInt64} {element : Int64}
    (found : scope.find list = some ⟨isMutable, .list elements⟩)
    (indexIs : eval index scope = .ok (indexValue, scope))
    (counts : indexValue.unsigned = .ok place)
    (selected : elementAt elements place = .ok element) :
    eval (.element list index) scope = .ok (.i64 element, scope) := by
  simp only [eval, value_of_find found, bind, Except.bind, Value.elements, indexIs, counts, selected]

theorem eval_to_i64_count {operand : Expr} {count : UInt64}
    (operandIs : eval operand scope = .ok (.usize count, scope)) :
    eval (.toI64 operand) scope = .ok (.i64 (wrap count.toNat), scope) := by
  simp only [eval, operandIs, bind, Except.bind, Value.asSigned]

theorem eval_to_usize_word {operand : Expr} {word : StackMachine.Word}
    (operandIs : eval operand scope = .ok (.i64 word, scope)) :
    eval (.toUsize operand) scope = .ok (.usize (UInt64.ofInt word.toInt), scope) := by
  simp only [eval, operandIs, bind, Except.bind, Value.asUnsigned]

/-- By a positive divisor the remainder never overflows. -/
theorem eval_rem_euclid {left right : Expr} {dividend divisor : StackMachine.Word}
    (leftIs : eval left scope = .ok (.i64 dividend, scope))
    (rightIs : eval right scope = .ok (.i64 divisor, scope)) (positive : divisor.toInt > 0) :
    eval (.remEuclid left right) scope =
      .ok (.i64 (wrap (dividend.toInt % divisor.toInt)), scope) := by
  have nonzero : divisor.toInt ≠ 0 := Int.ne_of_gt positive
  have noOverflow : ¬(dividend = Int64.minValue ∧ divisor.toInt = -1) := by
    rintro ⟨-, minusOne⟩
    rw [minusOne] at positive
    exact absurd positive (by decide)
  have divides : euclideanRemainder dividend divisor =
      .ok (wrap (dividend.toInt % divisor.toInt)) := by
    rw [euclideanRemainder, if_neg nonzero, if_neg noOverflow]
  simp only [eval, leftIs, rightIs, bind, Except.bind, Value.receiver, signed_word, divides]

theorem relate_words (relation : Relation) (left right : StackMachine.Word) :
    relateValues relation (.i64 left) (.i64 right) =
      .ok (relate relation left.toInt right.toInt) := rfl

theorem relate_word_literal (relation : Relation) (left right : StackMachine.Word) :
    relateValues relation (.i64 left) (.literal right.toInt) =
      .ok (relate relation left.toInt right.toInt) := by
  simp only [relateValues, signed_word, signed_literal, bind, Except.bind]

theorem relate_count_literal (relation : Relation) (left : UInt64) (right : Int) :
    relateValues relation (.usize left) (.literal right) =
      (Value.literal right).unsigned.map fun right => relate relation left.toNat right.toNat := by
  simp only [relateValues, unsigned_count, bind, Except.bind]
  cases (Value.literal right).unsigned <;> rfl

theorem relate_counts (relation : Relation) (left right : Nat) (leftSmall : left < 2 ^ 64)
    (rightSmall : right < 2 ^ 64) :
    relateValues relation (.usize (UInt64.ofNat left)) (.literal right) =
      .ok (relate relation left right) := by
  rw [relate_count_literal, unsigned_literal right rightSmall, Except.map,
    small_to_nat left leftSmall, small_to_nat right rightSmall]

theorem subtract_count_literal (left : UInt64) (right : Int) :
    subtract (.usize left) (.literal right) =
      (Value.literal right).unsigned.bind fun right =>
        if right.toNat ≤ left.toNat then .ok (.usize (UInt64.ofNat (left.toNat - right.toNat)))
        else .error .overflow := by
  simp only [subtract, unsigned_count, bind, Except.bind]

theorem subtract_counts (left right : Nat) (fits : right ≤ left) (small : left < 2 ^ 64) :
    subtract (.usize (UInt64.ofNat left)) (.literal right) =
      .ok (.usize (UInt64.ofNat (left - right))) := by
  have rightSmall := Nat.lt_of_le_of_lt fits small
  rw [subtract_count_literal, unsigned_literal right rightSmall, Except.bind,
    small_to_nat left small, small_to_nat right rightSmall, if_pos fits]

theorem eval_literal (word : StackMachine.Word) :
    ∃ result, eval (literal word) scope = .ok (result, scope) ∧ result.signed = .ok word := by
  by_cases least : word = Int64.minValue
  · refine ⟨.i64 Int64.minValue, ?_, by rw [least]; rfl⟩
    rw [literal, if_pos least]
    rfl
  · refine ⟨.literal word.toInt, ?_, signed_literal word⟩
    rw [literal, if_neg least]
    rfl

/-- The receiver of the remainder is the whole signed number. -/
theorem eval_receiver (word : StackMachine.Word) :
    eval (receiver word) scope = .ok (.i64 word, scope) := by
  by_cases least : word = Int64.minValue
  · rw [receiver, if_pos least, least]
    rfl
  · rw [receiver, if_neg least]
    simp only [eval, signed_literal, bind, Except.bind]

theorem eval_binary_value (op : BinaryOp) (left right value : StackMachine.Word)
    {leftMutable rightMutable : Bool} (leftIs : scope.find .a = some ⟨leftMutable, .i64 left⟩)
    (rightIs : scope.find .b = some ⟨rightMutable, .i64 right⟩)
    (evaluated : op.eval? left right = some value) :
    ∃ result, eval (binaryValue op) scope = .ok (result, scope) ∧ result.signed = .ok value := by
  have evalLeft := eval_i64_var leftIs
  have evalRight := eval_i64_var rightIs
  have compared := fun relation =>
    eval_compare relation evalLeft evalRight (relate_words relation left right)
  cases op with
  | add =>
      cases evaluated
      rw [Word.add_wraps]
      exact ⟨_, eval_wrapping evalLeft evalRight rfl, rfl⟩
  | sub =>
      cases evaluated
      rw [Word.sub_wraps]
      exact ⟨_, eval_wrapping evalLeft evalRight rfl, rfl⟩
  | mul =>
      cases evaluated
      rw [Word.mul_wraps]
      exact ⟨_, eval_wrapping evalLeft evalRight rfl, rfl⟩
  | div =>
      obtain ⟨divisor, rfl⟩ := BinaryOp.value_of_div evaluated
      refine ⟨_, eval_wrapping evalLeft evalRight ?_, rfl⟩
      rw [applyWrapping, if_neg divisor]
      rfl
  | mod =>
      obtain ⟨divisor, rfl⟩ := BinaryOp.value_of_mod evaluated
      refine ⟨_, eval_wrapping evalLeft evalRight ?_, rfl⟩
      rw [applyWrapping, if_neg divisor]
      rfl
  | eq =>
      cases evaluated
      rw [Word.beq_to_int]
      exact ⟨_, eval_flag (compared .eq), signed_flag _⟩
  | gt =>
      cases evaluated
      rw [Word.gt_to_int]
      exact ⟨_, eval_flag (compared .gt), signed_flag _⟩
  | lt =>
      cases evaluated
      rw [Word.lt_to_int]
      exact ⟨_, eval_flag (compared .lt), signed_flag _⟩

theorem eval_unary_value (op : UnaryOp) (value : StackMachine.Word) {isMutable : Bool}
    (valueIs : scope.find .a = some ⟨isMutable, .i64 value⟩) :
    ∃ result, eval (unaryValue op) scope = .ok (result, scope) ∧
      result.signed = .ok (op.eval value) := by
  have evalValue := eval_i64_var valueIs
  cases op with
  | neg =>
      rw [UnaryOp.eval, Word.neg_wraps]
      exact ⟨_, eval_wrapping_neg evalValue, rfl⟩
  | abs =>
      rw [UnaryOp.eval, Word.abs_wraps]
      exact ⟨_, eval_wrapping_abs evalValue, rfl⟩
  | isZero =>
      rw [UnaryOp.eval, Word.beq_to_int]
      exact ⟨_, eval_flag (eval_compare .eq evalValue rfl (relate_word_literal .eq value 0)),
        signed_flag _⟩

theorem eval_condition_test (condition : Condition) (value : StackMachine.Word) {isMutable : Bool}
    (valueIs : scope.find .c = some ⟨isMutable, .i64 value⟩) :
    eval (conditionTest condition) scope = .ok (.truth (condition.holds value), scope) := by
  have evalValue := eval_i64_var valueIs
  cases condition with
  | ifZero =>
      rw [Condition.holds, Word.beq_to_int]
      exact eval_compare .eq evalValue rfl (relate_word_literal .eq value 0)
  | ifNonzero =>
      rw [Condition.holds, bne, Word.beq_to_int]
      exact eval_compare .ne evalValue rfl (relate_word_literal .ne value 0)

end StackMachine.Rust

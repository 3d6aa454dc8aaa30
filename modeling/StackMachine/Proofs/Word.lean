import StackMachine.Word

/-!
# Words as wrapped integers

Every word operation is the integer operation on the signed values, reduced to the word with the
same 64 low bits. That covers the quotient by minus one, which words treat apart.
-/

namespace StackMachine.Word

set_option autoImplicit false

theorem add_wraps (left right : Word) :
    Word.add left right = Int64.ofInt (left.toInt + right.toInt) := by
  rw [Word.add, Int64.ofInt_add, Int64.ofInt_toInt, Int64.ofInt_toInt]

theorem sub_wraps (left right : Word) :
    Word.sub left right = Int64.ofInt (left.toInt - right.toInt) := by
  rw [Word.sub, Int64.ofInt_sub, Int64.ofInt_toInt, Int64.ofInt_toInt]

theorem mul_wraps (left right : Word) :
    Word.mul left right = Int64.ofInt (left.toInt * right.toInt) := by
  rw [Word.mul, Int64.ofInt_mul, Int64.ofInt_toInt, Int64.ofInt_toInt]

theorem neg_wraps (value : Word) : Word.neg value = Int64.ofInt (-value.toInt) := by
  rw [Word.neg, Int64.ofInt_neg, Int64.ofInt_toInt]

theorem abs_wraps (value : Word) : Word.abs value = Int64.ofInt value.toInt.natAbs := by
  have sign : value < 0 ↔ value.toInt < 0 := Int64.lt_iff_toInt_lt
  by_cases negative : value < 0
  · have magnitude : (value.toInt.natAbs : Int) = -value.toInt := by
      have below := sign.mp negative
      omega
    rw [Word.abs, if_pos negative, neg_wraps, magnitude]
  · have magnitude : (value.toInt.natAbs : Int) = value.toInt := by
      have above : ¬value.toInt < 0 := fun below => negative (sign.mpr below)
      omega
    rw [Word.abs, if_neg negative, magnitude, Int64.ofInt_toInt]

theorem div_wraps (left right : Word) :
    Word.div left right = Int64.ofInt (left.toInt.tdiv right.toInt) := by
  by_cases minusOne : right = -1
  · have quotient : left.toInt.tdiv (-1 : Word).toInt = -left.toInt := by
      change left.toInt.tdiv (-1) = _
      rw [Int.tdiv_neg, Int.tdiv_one]
    rw [Word.div, if_pos minusOne, neg_wraps, minusOne, quotient]
  · rw [Word.div, if_neg minusOne]
    apply Int64.toInt.inj
    rw [Int64.toInt_div, Int64.toInt_ofInt]

/-- The remainder is no larger than the dividend, so it fits as it is. -/
theorem rem_to_int (left right : Word) :
    (Word.rem left right).toInt = left.toInt.tmod right.toInt := by
  by_cases minusOne : right = -1
  · have remainder : left.toInt.tmod (-1 : Word).toInt = 0 := by
      change left.toInt.tmod (-1) = _
      rw [Int.tmod_neg, Int.tmod_one]
    rw [Word.rem, if_pos minusOne, minusOne, remainder]
    rfl
  · rw [Word.rem, if_neg minusOne, Int64.toInt_mod]

theorem rem_wraps (left right : Word) :
    Word.rem left right = Int64.ofInt (left.toInt.tmod right.toInt) := by
  rw [← rem_to_int, Int64.ofInt_toInt]

theorem to_int_nonneg {word : Word} (above : ¬word < 0) : 0 ≤ word.toInt :=
  Int.not_lt.mp fun below => above (Int64.lt_iff_toInt_lt.mpr below)

theorem beq_to_int (left right : Word) : (left == right) = (left.toInt == right.toInt) := by
  rw [Bool.eq_iff_iff]
  simp [← Int64.toInt_inj]

theorem lt_to_int (left right : Word) :
    decide (left < right) = decide (left.toInt < right.toInt) :=
  decide_eq_decide.mpr Int64.lt_iff_toInt_lt

theorem gt_to_int (left right : Word) :
    decide (left > right) = decide (left.toInt > right.toInt) :=
  lt_to_int right left

theorem max_to_int (left right : Word) : (max left right).toInt = max left.toInt right.toInt := by
  change (if left ≤ right then right else left).toInt = _
  rw [Int.max_def, apply_ite Int64.toInt]
  simp only [Int64.le_iff_toInt_le]

theorem min_to_int (left right : Word) : (min left right).toInt = min left.toInt right.toInt := by
  change (if left ≤ right then left else right).toInt = _
  rw [Int.min_def, apply_ite Int64.toInt]
  simp only [Int64.le_iff_toInt_le]

theorem of_nat_to_int (number : Nat) (small : number < 9223372036854775808) :
    (Int64.ofNat number).toInt = number := by
  rw [← Int64.ofInt_eq_ofNat, Int64.toInt_ofInt_of_le (by omega) (by omega)]

theorem of_bool_to_int (condition : Bool) :
    (Word.ofBool condition).toInt = if condition then 1 else 0 := by
  cases condition <;> rfl

end StackMachine.Word

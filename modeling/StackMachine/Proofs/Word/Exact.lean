import Mathlib.Algebra.Group.Int.Defs
import StackMachine.Proofs.Machine.Engine
import StackMachine.Proofs.Word

/-!
# Words are exact up to wrapping

A word operation has the value of the exact integer operation, reduced to the signed residue of 64
bits. The remainder and the floored remainder need no reduction. On a host whose signed arithmetic is
undefined where a result does not fit, the operations ask only for what is defined: they wrap on
unsigned words, they set the divisor minus one apart, and they add a modulus to nothing but a negative
remainder.
-/

namespace StackMachine.Word

set_option autoImplicit false

/-- The operations on two words have the exact values modulo `2 ^ 64`. -/
structure Exact (left right : Word) : Prop where
  add : (Word.add left right).toInt = (left.toInt + right.toInt).bmod (2 ^ 64)
  sub : (Word.sub left right).toInt = (left.toInt - right.toInt).bmod (2 ^ 64)
  mul : (Word.mul left right).toInt = (left.toInt * right.toInt).bmod (2 ^ 64)
  neg : (Word.neg left).toInt = (-left.toInt).bmod (2 ^ 64)
  abs : (Word.abs left).toInt = (left.toInt.natAbs : Int).bmod (2 ^ 64)
  div : right ≠ 0 → (Word.div left right).toInt = (left.toInt.tdiv right.toInt).bmod (2 ^ 64)
  remSmall : right ≠ 0 → (Word.rem left right).toInt.natAbs < right.toInt.natAbs
  remSign : right ≠ 0 → (Word.rem left right).toInt = 0 ∨
    (Word.rem left right).toInt.sign = left.toInt.sign
  recompose : right ≠ 0 →
    Word.add (Word.mul (Word.div left right) right) (Word.rem left right) = left
  floorMod : 0 < right →
    0 ≤ (Word.floorMod left right).toInt ∧
      (Word.floorMod left right).toInt < right.toInt ∧
      (Word.floorMod left right).toInt % right.toInt = left.toInt % right.toInt

theorem to_int_of_wraps {word : Word} {exact : Int} (wraps : word = Int64.ofInt exact) :
    word.toInt = exact.bmod (2 ^ 64) := by
  rw [wraps]
  exact Int64.toInt_ofInt

theorem to_int_ne_zero {word : Word} (nonzero : word ≠ 0) : word.toInt ≠ 0 :=
  fun zero => nonzero (Int64.toInt_inj.mp zero)

theorem rem_small (left right : Word) (nonzero : right ≠ 0) :
    (Word.rem left right).toInt.natAbs < right.toInt.natAbs := by
  rw [rem_to_int, Int.natAbs_tmod]
  exact Nat.mod_lt _ (Int.natAbs_pos.mpr (to_int_ne_zero nonzero))

theorem rem_sign (left right : Word) :
    (Word.rem left right).toInt = 0 ∨ (Word.rem left right).toInt.sign = left.toInt.sign := by
  rw [rem_to_int]
  by_cases divides : right.toInt ∣ left.toInt
  · exact Or.inl (Int.tmod_eq_zero_of_dvd divides)
  · right
    rw [Int.sign_tmod, if_neg divides]

/-- The law of division holds for the integers, and reducing respects sums and products. -/
theorem recompose (left right : Word) :
    Word.add (Word.mul (Word.div left right) right) (Word.rem left right) = left := by
  have product : Word.mul (Word.div left right) right =
      Int64.ofInt (left.toInt.tdiv right.toInt * right.toInt) := by
    rw [Word.mul, div_wraps, Int64.ofInt_mul, Int64.ofInt_toInt]
  rw [product, rem_wraps, Word.add, ← Int64.ofInt_add, Int.tdiv_mul_add_tmod, Int64.ofInt_toInt]

theorem lifted_fits {value modulus : Word} (positive : 0 < modulus)
    (negative : value % modulus < 0) :
    Int64.minValue.toInt ≤ (value % modulus).toInt + modulus.toInt ∧
      (value % modulus).toInt + modulus.toInt ≤ Int64.maxValue.toInt := by
  have least := (value % modulus).minValue_le_toInt
  have greatest := modulus.toInt_le
  have above : 0 < modulus.toInt := Int64.lt_iff_toInt_lt.mp positive
  have below : (value % modulus).toInt < 0 := Int64.lt_iff_toInt_lt.mp negative
  omega

theorem sum_to_int {left right : Word}
    (fits : Int64.minValue.toInt ≤ left.toInt + right.toInt ∧
      left.toInt + right.toInt ≤ Int64.maxValue.toInt) :
    (left + right).toInt = left.toInt + right.toInt := by
  have bounds : Int64.minValue.toInt = -2 ^ 63 ∧ Int64.maxValue.toInt = 2 ^ 63 - 1 := ⟨rfl, rfl⟩
  rw [Int64.toInt_add]
  exact Int.bmod_eq_of_le (by omega) (by omega)

theorem floor_mod_to_int (value modulus : Word) (positive : 0 < modulus) :
    (Word.floorMod value modulus).toInt = value.toInt % modulus.toInt := by
  have above : 0 < modulus.toInt := Int64.lt_iff_toInt_lt.mp positive
  have floored := Engine.floor_mod_positive value.toInt modulus.toInt above
  rw [Engine.floorMod?, if_neg (by omega), ← Int64.toInt_mod, Option.some.injEq] at floored
  have sign : value % modulus < 0 ↔ (value % modulus).toInt < 0 := Int64.lt_iff_toInt_lt
  rw [Word.floorMod, ← floored]
  by_cases negative : value % modulus < 0
  · rw [if_pos negative, if_pos (sign.mp negative), sum_to_int (lifted_fits positive negative)]
  · rw [if_neg negative, if_neg (mt sign.mpr negative)]

theorem values_exact (left right : Word) : Exact left right where
  add := to_int_of_wraps (add_wraps left right)
  sub := to_int_of_wraps (sub_wraps left right)
  mul := to_int_of_wraps (mul_wraps left right)
  neg := to_int_of_wraps (neg_wraps left)
  abs := to_int_of_wraps (abs_wraps left)
  div _ := to_int_of_wraps (div_wraps left right)
  remSmall := rem_small left right
  remSign _ := rem_sign left right
  recompose _ := recompose left right
  floorMod positive := by
    have above : 0 < right.toInt := Int64.lt_iff_toInt_lt.mp positive
    rw [floor_mod_to_int left right positive]
    exact ⟨Int.emod_nonneg _ (Int.ne_of_gt above), Int.emod_lt_of_pos _ above, Int.emod_emod _ _⟩

namespace Host

def add (left right : Word) : Word := (left.toUInt64 + right.toUInt64).toInt64

def sub (left right : Word) : Word := (left.toUInt64 - right.toUInt64).toInt64

def mul (left right : Word) : Word := (left.toUInt64 * right.toUInt64).toInt64

def neg (value : Word) : Word := (0 - value.toUInt64).toInt64

def abs (value : Word) : Word := if value < 0 then neg value else value

/-- Signed addition; undefined where the sum does not fit a word. -/
def sum? (left right : Word) : Option Word :=
  if Int64.minValue.toInt ≤ left.toInt + right.toInt ∧
      left.toInt + right.toInt ≤ Int64.maxValue.toInt then some (left + right)
  else none

def floorMod? (value modulus : Word) : Option Word := do
  let remainder ← Engine.remainder? value modulus
  if remainder < 0 then sum? remainder modulus else some remainder

/-- What the host computes is defined, and it is the value of the operation. The unsigned operations
are defined everywhere. -/
structure Computes (left right : Word) : Prop where
  add : Host.add left right = Word.add left right
  sub : Host.sub left right = Word.sub left right
  mul : Host.mul left right = Word.mul left right
  neg : Host.neg left = Word.neg left
  abs : Host.abs left = Word.abs left
  div : right ≠ 0 → Engine.div? left right = some (Word.div left right)
  rem : right ≠ 0 → Engine.rem? left right = some (Word.rem left right)
  floorMod : 0 < right → Host.floorMod? left right = some (Word.floorMod left right)

theorem neg_computes (value : Word) : neg value = Word.neg value := by
  simp [neg, Word.neg]

theorem abs_computes (value : Word) : abs value = Word.abs value := by
  rw [abs, Word.abs, neg_computes]

theorem div_computes (left right : Word) (nonzero : right ≠ 0) :
    Engine.div? left right = some (Word.div left right) := by
  have defined := Engine.result_defined .div left right fun zero => nonzero zero.2
  rwa [BinaryOp.eval?, if_neg nonzero] at defined

theorem rem_computes (left right : Word) (nonzero : right ≠ 0) :
    Engine.rem? left right = some (Word.rem left right) := by
  have defined := Engine.result_defined .mod left right fun zero => nonzero zero.2
  rwa [BinaryOp.eval?, if_neg nonzero] at defined

theorem floor_mod_computes (value modulus : Word) (positive : 0 < modulus) :
    floorMod? value modulus = some (Word.floorMod value modulus) := by
  have above : 0 < modulus.toInt := Int64.lt_iff_toInt_lt.mp positive
  have defined : ¬(modulus = 0 ∨ (value = Int64.minValue ∧ modulus = -1)) := by
    rintro (rfl | ⟨-, rfl⟩) <;> exact absurd above (by decide)
  rw [floorMod?, Engine.remainder?, if_neg defined, Word.floorMod]
  simp only [Option.bind_eq_bind, Option.bind_some]
  by_cases negative : value % modulus < 0
  · rw [if_pos negative, if_pos negative, sum?, if_pos (lifted_fits positive negative)]
  · rw [if_neg negative, if_neg negative]

theorem host_computes (left right : Word) : Computes left right where
  add := rfl
  sub := rfl
  mul := rfl
  neg := neg_computes left
  abs := abs_computes left
  div := div_computes left right
  rem := rem_computes left right
  floorMod := floor_mod_computes left right

end Host

/-- Words are exact modulo `2 ^ 64`, and computing them never overflows a signed operation. -/
theorem operations_are_exact (left right : Word) : Exact left right ∧ Host.Computes left right :=
  ⟨values_exact left right, Host.host_computes left right⟩

/-- The least word, divided by minus one and reduced by the greatest word. -/
theorem operations_are_exact_least :
    (-1 : Word) ≠ 0 ∧
      (Word.div Int64.minValue (-1)).toInt = (2 ^ 63 : Int).bmod (2 ^ 64) ∧
      Engine.div? Int64.minValue (-1) = some Int64.minValue ∧
      Word.add (Word.mul (Word.div Int64.minValue (-1)) (-1)) (Word.rem Int64.minValue (-1)) =
        Int64.minValue ∧
      (0 : Word) < Int64.maxValue ∧
      (Word.floorMod Int64.minValue Int64.maxValue).toInt % (2 ^ 63 - 1) = -2 ^ 63 % (2 ^ 63 - 1) ∧
      Host.floorMod? Int64.minValue Int64.maxValue = some 9223372036854775806 := by
  have nonzero : (-1 : Word) ≠ 0 := by decide
  have positive : (0 : Word) < Int64.maxValue := by decide
  obtain ⟨values, computed⟩ := operations_are_exact Int64.minValue (-1)
  obtain ⟨floored, reduced⟩ := operations_are_exact Int64.minValue Int64.maxValue
  exact ⟨nonzero, values.div nonzero, computed.div nonzero, values.recompose nonzero, positive,
    (floored.floorMod positive).2.2, reduced.floorMod positive⟩

end StackMachine.Word

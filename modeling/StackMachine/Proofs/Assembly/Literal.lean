import Mathlib.Data.List.Induction
import StackMachine.Proofs.Decimal
import StackMachine.Word

/-!
# Integer literals as a grammar

A numeral is a nonempty row of digits behind at most one sign, and a literal is a numeral whose
value is the value of a word. The reader accepts the literals and nothing else; leading zeros and
rows of any length are literals as long as the value fits.
-/

namespace StackMachine.Decimal

set_option autoImplicit false

/-- Rows of digits with their value, most significant digit first. -/
inductive Digits : Text → Nat → Prop where
  | single (digit : Nat) : digit < 10 → Digits [digitByte digit] digit
  | more (digits : Text) (leading digit : Nat) : Digits digits leading → digit < 10 →
      Digits (digits ++ [digitByte digit]) (10 * leading + digit)

def plus : UInt8 := 43

def minus : UInt8 := 45

inductive Numeral : Text → Int → Prop where
  | unsigned (digits : Text) (magnitude : Nat) : Digits digits magnitude →
      Numeral digits magnitude
  | positive (digits : Text) (magnitude : Nat) : Digits digits magnitude →
      Numeral (plus :: digits) magnitude
  | negative (digits : Text) (magnitude : Nat) : Digits digits magnitude →
      Numeral (minus :: digits) (-magnitude)

/-- A spelling of a word. -/
def Literal (spelling : Text) (word : Word) : Prop := Numeral spelling word.toInt

theorem digit_of_byte (byte : UInt8) (isDigit : Text.isDigit byte = true) :
    byte.toNat - 48 < 10 ∧ digitByte (byte.toNat - 48) = byte := by
  simp only [Text.isDigit, Bool.and_eq_true, decide_eq_true_eq, UInt8.le_iff_toNat_le] at isDigit
  have lower : 48 ≤ byte.toNat := isDigit.1
  have upper : byte.toNat ≤ 57 := isDigit.2
  have small : byte.toNat - 48 < 10 := by omega
  refine ⟨small, UInt8.toNat_inj.mp ?_⟩
  rw [digit_byte_to_nat _ small]
  omega

theorem digits_are_digits {digits : Text} {magnitude : Nat} (row : Digits digits magnitude) :
    digits ≠ [] ∧ ∀ byte ∈ digits, Text.isDigit byte = true := by
  induction row with
  | single digit small => simp [digit_byte_is_digit digit small]
  | more digits leading digit _ small ih =>
      refine ⟨by simp, fun byte member => ?_⟩
      rcases List.mem_append.mp member with earlier | last
      · exact ih.2 byte earlier
      · rw [List.mem_singleton.mp last]
        exact digit_byte_is_digit digit small

theorem value_of_digits {digits : Text} {magnitude : Nat} (row : Digits digits magnitude) :
    value digits = magnitude := by
  induction row with
  | single digit small => simp [value, digit_byte_to_nat digit small]
  | more digits leading digit _ small ih =>
      rw [value_append_digit, ih, digit_byte_to_nat digit small, Nat.add_sub_cancel_left]

/-- The value grows at the end of the row, so the induction takes the last digit off. -/
theorem digits_of_row (digits : Text) (nonempty : digits ≠ [])
    (allDigits : ∀ byte ∈ digits, Text.isDigit byte = true) : Digits digits (value digits) := by
  induction digits using List.reverseRecOn with
  | nil => exact absurd rfl nonempty
  | append_singleton front last ih =>
      have lastDigit := digit_of_byte last (allDigits last (by simp))
      rw [value_append_digit]
      by_cases empty : front = []
      · have single := Digits.single (last.toNat - 48) lastDigit.1
        rw [lastDigit.2] at single
        simpa [empty, value] using single
      · have leading := ih empty fun byte member => allDigits byte (List.mem_append_left _ member)
        have more := Digits.more front (value front) (last.toNat - 48) leading lastDigit.1
        rwa [lastDigit.2] at more

theorem digits_iff (digits : Text) (magnitude : Nat) :
    digits? digits = some magnitude ↔ Digits digits magnitude := by
  rw [digits?]
  constructor
  · intro read
    split at read
    · next row =>
        rw [← Option.some.inj read]
        exact digits_of_row digits row.1 (List.all_eq_true.mp row.2)
    · cases read
  · intro row
    have bytes := digits_are_digits row
    rw [if_pos ⟨bytes.1, List.all_eq_true.mpr bytes.2⟩, value_of_digits row]

theorem no_digit_before_sign {sign : UInt8} {rest : Text} {magnitude : Nat}
    (isSign : sign = plus ∨ sign = minus) : ¬Digits (sign :: rest) magnitude := by
  intro row
  have digit := (digits_are_digits row).2 sign (by simp)
  rcases isSign with rfl | rfl <;> exact absurd digit (by decide)

theorem signed_iff (digits : Text) (sign : Int → Int) (number : Int) :
    Option.map sign (do let magnitude ← digits? digits; pure (magnitude : Int)) = some number ↔
      ∃ magnitude : Nat, Digits digits magnitude ∧ sign magnitude = number := by
  simp only [← digits_iff]
  cases digits? digits <;> simp

theorem numeral_iff (spelling : Text) (number : Int) :
    toInt? spelling = some number ↔ Numeral spelling number := by
  unfold toInt?
  split
  · next digits =>
      rw [signed_iff]
      constructor
      · rintro ⟨magnitude, row, rfl⟩
        exact .positive digits magnitude row
      · intro numeral
        cases numeral with
        | unsigned _ magnitude row => exact absurd row (no_digit_before_sign (.inl rfl))
        | positive _ magnitude row => exact ⟨magnitude, row, rfl⟩
  · next digits =>
      rw [signed_iff]
      constructor
      · rintro ⟨magnitude, row, rfl⟩
        exact .negative digits magnitude row
      · intro numeral
        cases numeral with
        | unsigned _ magnitude row => exact absurd row (no_digit_before_sign (.inr rfl))
        | negative _ magnitude row => exact ⟨magnitude, row, rfl⟩
  · next notPlus notMinus =>
      rw [signed_iff]
      constructor
      · rintro ⟨magnitude, row, rfl⟩
        exact .unsigned spelling magnitude row
      · intro numeral
        cases numeral with
        | unsigned _ magnitude row => exact ⟨magnitude, row, rfl⟩
        | positive digits magnitude row => exact absurd rfl (notPlus digits)
        | negative digits magnitude row => exact absurd rfl (notMinus digits)

theorem literal_iff (spelling : Text) (word : Word) :
    toWord? spelling = some word ↔ Literal spelling word := by
  rw [Literal, ← numeral_iff, toWord?, Option.bind_eq_some_iff]
  constructor
  · rintro ⟨number, read, inRange⟩
    split at inRange
    · next bounds =>
        have value : (Int64.ofInt number).toInt = number := by
          refine Int64.toInt_ofInt_of_le bounds.1 ?_
          have upper : number ≤ 9223372036854775807 := bounds.2
          omega
        rw [← Option.some.inj inRange, value]
        exact read
    · cases inRange
  · intro read
    have lower : Int64.minValue.toInt ≤ word.toInt := word.minValue_le_toInt
    have upper : word.toInt ≤ Int64.maxValue.toInt := word.toInt_le
    exact ⟨word.toInt, read, by rw [if_pos ⟨lower, upper⟩, Int64.ofInt_toInt]⟩

end StackMachine.Decimal

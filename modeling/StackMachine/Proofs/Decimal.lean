import StackMachine.Text.Decimal

/-!
# Decimal spellings read back

A written number is a nonempty row of digits, so it is neither empty nor signed by itself, and the
reader folds the row into the number it came from.
-/

namespace StackMachine.Decimal

set_option autoImplicit false

def digitByte (digit : Nat) : UInt8 := (Nat.digitChar digit).toNat.toUInt8

theorem digit_byte_to_nat (digit : Nat) (small : digit < 10) :
    (digitByte digit).toNat = 48 + digit := by
  have code : (Nat.digitChar digit).toNat = 48 + digit := Nat.toNat_digitChar_of_lt_ten small
  have bound : 48 + digit < UInt8.size := by
    change 48 + digit < 256
    omega
  rw [digitByte, code, Nat.toUInt8, UInt8.toNat_ofNat_of_lt' bound]

theorem of_nat_small (number : Nat) (small : number < 10) :
    ofNat number = [digitByte number] := by
  rw [ofNat, Nat.toDigits_of_lt_base small]
  rfl

theorem of_nat_large (number : Nat) (large : 10 ≤ number) :
    ofNat number = ofNat (number / 10) ++ [digitByte (number % 10)] := by
  rw [ofNat, Nat.toDigits_of_base_le (by decide) large, List.map_append]
  rfl

theorem of_nat_ne_nil (number : Nat) : ofNat number ≠ [] := by
  simp [ofNat]

theorem value_append_digit (digits : Text) (byte : UInt8) :
    value (digits ++ [byte]) = 10 * value digits + (byte.toNat - 48) := by
  simp [value]

theorem value_of_nat (number : Nat) : value (ofNat number) = number := by
  induction number using Nat.strongRecOn with
  | _ number ih =>
      by_cases small : number < 10
      · rw [of_nat_small number small]
        simp [value, digit_byte_to_nat number small]
      · have digitBound : number % 10 < 10 := Nat.mod_lt _ (by decide)
        rw [of_nat_large number (by omega), value_append_digit, ih (number / 10) (by omega),
          digit_byte_to_nat _ digitBound]
        omega

theorem digit_byte_is_digit (digit : Nat) (small : digit < 10) :
    Text.isDigit (digitByte digit) = true := by
  have code := digit_byte_to_nat digit small
  simp only [Text.isDigit, Bool.and_eq_true, decide_eq_true_eq, UInt8.le_iff_toNat_le, code]
  exact ⟨by simp, by simp; omega⟩

theorem of_nat_digits (number : Nat) : ∀ byte ∈ ofNat number, Text.isDigit byte = true := by
  induction number using Nat.strongRecOn with
  | _ number ih =>
      intro byte member
      by_cases small : number < 10
      · rw [of_nat_small number small, List.mem_singleton] at member
        rw [member]
        exact digit_byte_is_digit number small
      · rw [of_nat_large number (by omega), List.mem_append, List.mem_singleton] at member
        rcases member with earlier | last
        · exact ih (number / 10) (by omega) byte earlier
        · rw [last]
          exact digit_byte_is_digit _ (Nat.mod_lt _ (by decide))

theorem of_int_bytes (number : Int) :
    ∀ byte ∈ ofInt number, Text.isDigit byte = true ∨ byte = 45 := by
  intro byte member
  cases number with
  | ofNat magnitude => exact .inl (of_nat_digits magnitude byte member)
  | negSucc below =>
      rcases List.mem_append.mp member with sign | digit
      · exact .inr (by simpa [Text.ascii] using sign)
      · exact .inl (of_nat_digits _ byte digit)

theorem not_mem_of_int {byte : UInt8} (noDigit : Text.isDigit byte = false) (noSign : byte ≠ 45)
    (number : Int) : byte ∉ ofInt number := by
  intro member
  rcases of_int_bytes number byte member with digit | sign
  · rw [digit] at noDigit
    cases noDigit
  · exact noSign sign

theorem not_mem_of_nat {byte : UInt8} (noDigit : Text.isDigit byte = false) (number : Nat) :
    byte ∉ ofNat number := by
  intro member
  rw [of_nat_digits number byte member] at noDigit
  cases noDigit

theorem of_int_ne_nil (number : Int) : ofInt number ≠ [] := by
  cases number with
  | ofNat magnitude => exact of_nat_ne_nil magnitude
  | negSucc below => exact List.append_ne_nil_of_right_ne_nil _ (of_nat_ne_nil _)

theorem digits_of_nat (number : Nat) : digits? (ofNat number) = some number := by
  have allDigits : (ofNat number).all Text.isDigit = true :=
    List.all_eq_true.mpr (of_nat_digits number)
  rw [digits?, if_pos ⟨of_nat_ne_nil number, allDigits⟩, value_of_nat]

/-- No digit is a sign, so an unsigned spelling takes the last branch of the reader. -/
theorem to_int_of_nat (number : Nat) : toInt? (ofNat number) = some (number : Int) := by
  have digits := of_nat_digits number
  unfold toInt?
  split
  · next rest shape =>
      have plus := digits 43 (by rw [shape]; simp)
      simp [Text.isDigit] at plus
  · next rest shape =>
      have minus := digits 45 (by rw [shape]; simp)
      simp [Text.isDigit] at minus
  · rw [digits_of_nat]
    rfl

theorem to_int_of_int (number : Int) : toInt? (ofInt number) = some number := by
  cases number with
  | ofNat magnitude => exact to_int_of_nat magnitude
  | negSucc below =>
      change (digits? (ofNat (below + 1))).map (fun magnitude => -(magnitude : Int)) = _
      rw [digits_of_nat]
      rfl

/-- Every word survives being written and read, the least one included. -/
theorem to_word_of_int (word : Int64) : toWord? (ofInt word.toInt) = some word := by
  have lower : Int64.minValue.toInt ≤ word.toInt := word.minValue_le_toInt
  have upper : word.toInt ≤ Int64.maxValue.toInt := word.toInt_le
  rw [toWord?, to_int_of_int, Option.bind_some, if_pos ⟨lower, upper⟩, Int64.ofInt_toInt]

end StackMachine.Decimal

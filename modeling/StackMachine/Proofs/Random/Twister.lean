import StackMachine.Proofs.Random.Draw
import StackMachine.Random.Twister

/-!
# The answers of the twister

A selected word lies between the bounds: the high half of the product is at most the distance of the
bounds, and moving the lower bound up by it stays within the signed range. So whatever state the
twister starts from, a run of it is one of the outcomes of the draw.
-/

namespace StackMachine.Random

set_option autoImplicit false

namespace Uniform

/-- A word read without its sign is the word, or the word moved up by the number of words. -/
theorem unsigned_to_int (word : Word) :
    (word.toInt = word.toUInt64.toNat ∧ word.toUInt64.toNat < 9223372036854775808) ∨
      (word.toInt = word.toUInt64.toNat - 18446744073709551616 ∧
        9223372036854775808 ≤ word.toUInt64.toNat ∧
        word.toUInt64.toNat < 18446744073709551616) := by
  have signed : word.toInt = word.toBitVec.toInt := rfl
  have unsigned : word.toUInt64.toNat = word.toBitVec.toNat := rfl
  have bound := word.toUInt64.toNat_lt
  rw [BitVec.toInt_eq_toNat_cond] at signed
  split at signed <;> omega

theorem distance_to_nat (low high : Word) (ordered : low ≤ high) :
    ((distance low high).toNat : Int) = high.toInt - low.toInt := by
  have order := Int64.le_iff_toInt_le.mp ordered
  have lower := unsigned_to_int low
  have upper := unsigned_to_int high
  rw [distance, UInt64.toNat_sub]
  omega

theorem moved_to_int (low high : Word) (offset : Nat) (ordered : low ≤ high)
    (near : offset ≤ (distance low high).toNat) :
    (UInt64.ofNat offset + low.toUInt64).toInt64.toInt = low.toInt + offset := by
  have apart := distance_to_nat low high ordered
  have lower := unsigned_to_int low
  have upper := unsigned_to_int high
  have bound := (distance low high).toNat_lt
  have moved := unsigned_to_int (UInt64.ofNat offset + low.toUInt64).toInt64
  have unsigned : (UInt64.ofNat offset + low.toUInt64).toInt64.toUInt64.toNat =
      (UInt64.ofNat offset + low.toUInt64).toNat := rfl
  rw [unsigned, UInt64.toNat_add, UInt64.toNat_ofNat'] at moved
  omega

theorem high_half_le (low high : Word) (raw : UInt64) :
    raw.toNat * ((distance low high).toNat + 1) / UInt64.size ≤ (distance low high).toNat := by
  have product : raw.toNat * ((distance low high).toNat + 1) <
      UInt64.size * ((distance low high).toNat + 1) :=
    Nat.mul_lt_mul_of_pos_right raw.toNat_lt (Nat.succ_pos _)
  exact Nat.le_of_lt_succ (Nat.div_lt_of_lt_mul product)

theorem select_within (low high : Word) (raw : UInt64) (word : Word) (ordered : low ≤ high)
    (selected : select? low high raw = some word) : low ≤ word ∧ word ≤ high := by
  have apart := distance_to_nat low high ordered
  rw [Int64.le_iff_toInt_le, Int64.le_iff_toInt_le]
  rw [select?] at selected
  split at selected
  · next full =>
      have least := word.minValue_le_toInt
      have greatest := word.toInt_le
      have lower := low.minValue_le_toInt
      have upper := high.toInt_le
      have width : (distance low high).toNat = 18446744073709551615 := by
        rw [full]
        rfl
      have range : Int64.maxValue.toInt = Int64.minValue.toInt + 18446744073709551615 := rfl
      omega
  · simp only at selected
    split at selected
    · cases selected
    · have near := high_half_le low high raw
      have moved := moved_to_int low high _ ordered near
      rw [← Option.some.inj selected, moved]
      generalize raw.toNat * ((distance low high).toNat + 1) / UInt64.size = offset at near
      omega

end Uniform

namespace Twister

theorem answer_within (low high : Word) (ordered : low ≤ high) (attempts : Nat)
    (twister : Twister) :
    low ≤ (answer low high attempts twister).1 ∧ (answer low high attempts twister).1 ≤ high := by
  induction attempts generalizing twister with
  | zero => exact ⟨Int64.le_refl low, ordered⟩
  | succ attempts ih =>
      rw [answer]
      rcases twister.next with ⟨raw, renewed⟩
      cases selected : Uniform.select? low high raw with
      | none => simpa only [selected] using ih renewed
      | some word =>
          simpa only [selected] using Uniform.select_within low high raw word ordered selected

theorem run_yields {α : Type} (draw : Draw α) (answerable : draw.Answerable) (twister : Twister) :
    draw.Yields (run draw twister).1 := by
  induction answerable generalizing twister with
  | done value => exact .done value
  | ask low high next ordered _ ih =>
      have within := answer_within low high ordered patience twister
      rw [run]
      exact .ask low high _ next _ within.1 within.2 (ih _ within.1 within.2 _)

end Twister

end StackMachine.Random

import StackMachine.Policy

/-!
# Resolved operands are in range

A jump that resolves stays inside the program. An input index that is fetched is a position inside
the inputs: the index itself, or its remainder by the number of inputs. Where the strict mode of
either kind resolves an operand, every other mode resolves it alike.
-/

namespace StackMachine

set_option autoImplicit false

namespace JumpMode

theorem resolve_lt (mode : JumpMode) (length position : Nat) (target : Word)
    (resolved : mode.resolve? length target = some position) : position < length := by
  by_cases empty : length = 0
  · simp [JumpMode.resolve?, empty] at resolved
  · by_cases inside : 0 ≤ target.toInt ∧ target.toInt < length
    · simp only [JumpMode.resolve?, if_neg empty, if_pos inside, Option.some.injEq] at resolved
      omega
    · simp only [JumpMode.resolve?, if_neg empty, if_neg inside] at resolved
      cases mode with
      | error => simp at resolved
      | clamp =>
          simp only [Option.some.injEq] at resolved
          split at resolved <;> omega
      | wrap =>
          simp only [Option.some.injEq] at resolved
          have lower := Int.emod_nonneg target.toInt (show (length : Int) ≠ 0 by omega)
          have upper := Int.emod_lt_of_pos target.toInt (show 0 < (length : Int) by omega)
          omega

variable {mode : JumpMode} {length : Nat} {target : Word}

theorem resolve_inside (lower : 0 ≤ target.toInt) (upper : target.toInt < length) :
    mode.resolve? length target = some target.toInt.toNat := by
  have nonempty : length ≠ 0 := by omega
  simp only [resolve?, if_neg nonempty, if_pos (And.intro lower upper)]

theorem resolve_none (nonempty : length ≠ 0) (unresolved : mode.resolve? length target = none) :
    mode = .error ∧ ¬(0 ≤ target.toInt ∧ target.toInt < length) := by
  by_cases inside : 0 ≤ target.toInt ∧ target.toInt < length
  · rw [resolve_inside inside.1 inside.2] at unresolved
    cases unresolved
  · simp only [resolve?, if_neg nonempty, if_neg inside] at unresolved
    cases mode with
    | error => exact ⟨rfl, inside⟩
    | clamp | wrap => cases unresolved

theorem resolve_of_error (mode : JumpMode) (length : Nat) (target : Word) :
    mode.resolve? length target = error.resolve? length target ∨
      error.resolve? length target = none := by
  by_cases inside : 0 ≤ target.toInt ∧ target.toInt < length
  · left
    rw [resolve_inside inside.1 inside.2, resolve_inside inside.1 inside.2]
  · right
    simp only [resolve?, if_neg inside, ite_self]

end JumpMode

namespace InputMode

variable {inputs : List Word} {index : Word}

theorem resolve_lt (mode : InputMode) (count position : Nat) (index : Word)
    (resolved : mode.resolve? count index = some position) : position < count := by
  cases mode with
  | direct =>
      simp only [resolve?] at resolved
      split at resolved
      · simp only [Option.some.injEq] at resolved
        omega
      · cases resolved
  | cyclic =>
      simp only [resolve?] at resolved
      split at resolved
      · cases resolved
      · simp only [Option.some.injEq] at resolved
        have lower := Int.emod_nonneg index.toInt (show (count : Int) ≠ 0 by omega)
        have upper := Int.emod_lt_of_pos index.toInt (show 0 < (count : Int) by omega)
        omega

theorem fetch_cyclic (index : Word) (nonempty : inputs ≠ []) :
    ∃ position value, index.toInt % inputs.length = (position : Nat) ∧
      inputs[position]? = some value ∧ cyclic.fetch? inputs index = some value := by
  have positive : 0 < inputs.length := List.length_pos_iff.mpr nonempty
  have lower : 0 ≤ index.toInt % inputs.length := Int.emod_nonneg _ (by omega)
  have upper : index.toInt % inputs.length < inputs.length := Int.emod_lt_of_pos _ (by omega)
  obtain ⟨position, positionIs⟩ := Int.eq_ofNat_of_zero_le lower
  have inside : position < inputs.length := by omega
  have found : inputs[position]? = some inputs[position] := List.getElem?_eq_getElem inside
  refine ⟨position, _, positionIs, found, ?_⟩
  rw [fetch?, resolve?, if_neg (by omega), positionIs]
  exact found

theorem fetch_direct_outside (outside : index.toInt < 0 ∨ inputs.length ≤ index.toInt) :
    direct.fetch? inputs index = none := by
  rw [fetch?, resolve?, if_neg (by omega)]
  rfl

theorem fetch_direct_negative (negative : index < 0) : direct.fetch? inputs index = none :=
  fetch_direct_outside (.inl (Int64.lt_iff_toInt_lt.mp negative))

theorem fetch_direct (lower : 0 ≤ index.toInt) (upper : index.toInt < inputs.length) :
    ∃ position value, index.toInt = (position : Nat) ∧
      inputs[position]? = some value ∧ direct.fetch? inputs index = some value := by
  obtain ⟨position, positionIs⟩ := Int.eq_ofNat_of_zero_le lower
  have inside : position < inputs.length := by omega
  have found : inputs[position]? = some inputs[position] := List.getElem?_eq_getElem inside
  refine ⟨position, _, positionIs, found, ?_⟩
  rw [fetch?, resolve?, if_pos ⟨lower, upper⟩, positionIs]
  exact found

theorem fetch_none_iff (mode : InputMode) (inputs : List Word) (index : Word) :
    mode.fetch? inputs index = none ↔ mode.resolve? inputs.length index = none := by
  rw [fetch?]
  cases resolved : mode.resolve? inputs.length index with
  | none => simp
  | some position =>
      have inside := resolve_lt mode inputs.length position index resolved
      simp [List.getElem?_eq_getElem inside]

theorem fetch_of_direct (mode : InputMode) (inputs : List Word) (index : Word) :
    mode.fetch? inputs index = direct.fetch? inputs index ∨ direct.fetch? inputs index = none := by
  by_cases inside : 0 ≤ index.toInt ∧ index.toInt < inputs.length
  · left
    cases mode with
    | direct => rfl
    | cyclic =>
        have itself : index.toInt % inputs.length = index.toInt :=
          Int.emod_eq_of_lt inside.1 inside.2
        have nonempty : inputs.length ≠ 0 := by omega
        simp only [fetch?, resolve?, if_neg nonempty, if_pos inside, itself]
  · right
    simp only [fetch?, resolve?, if_neg inside, Option.bind_none]

/-- More inputs behind the given ones are out of the reach of an index that they resolve. -/
theorem fetch_direct_append (inputs more : List Word) (index : Word) :
    direct.fetch? (inputs ++ more) index = direct.fetch? inputs index ∨
      direct.fetch? inputs index = none := by
  by_cases inside : 0 ≤ index.toInt ∧ index.toInt < inputs.length
  · left
    have within : index.toInt.toNat < inputs.length := by omega
    have longer : 0 ≤ index.toInt ∧ index.toInt < (inputs ++ more).length := by
      rw [List.length_append]
      omega
    simp only [fetch?, resolve?, if_pos inside, if_pos longer, Option.bind_some,
      List.getElem?_append_left within]
  · right
    simp only [fetch?, resolve?, if_neg inside, Option.bind_none]

theorem get_repeated (count : Nat) (inputs : List Word) (position : Nat)
    (inside : position < count * inputs.length) :
    (List.replicate count inputs).flatten[position]? = inputs[position % inputs.length]? := by
  induction count generalizing position with
  | zero => exact absurd inside (by omega)
  | succ count ih =>
      rw [List.replicate_succ, List.flatten_cons]
      by_cases first : position < inputs.length
      · rw [List.getElem?_append_left first, Nat.mod_eq_of_lt first]
      · have reached : inputs.length ≤ position := Nat.le_of_not_lt first
        have further : position - inputs.length < count * inputs.length := by
          rw [Nat.succ_mul] at inside
          omega
        rw [List.getElem?_append_right reached, ih _ further, ← Nat.mod_eq_sub_mod reached]

/-- Reducing an index by a multiple of the number of inputs leaves the same remainder. -/
theorem fetch_cyclic_repeated (count : Nat) (positive : 1 ≤ count) (inputs : List Word)
    (index : Word) :
    cyclic.fetch? (List.replicate count inputs).flatten index = cyclic.fetch? inputs index := by
  by_cases empty : inputs = []
  · simp [empty]
  have size : (List.replicate count inputs).flatten.length = count * inputs.length := by simp
  have long : 0 < inputs.length := List.length_pos_iff.mpr empty
  have longer : (List.replicate count inputs).flatten ≠ [] := by
    apply List.ne_nil_of_length_pos
    rw [size]
    exact Nat.mul_pos positive long
  obtain ⟨near, value, nearIs, found, fetched⟩ := fetch_cyclic index empty
  obtain ⟨far, other, farIs, also, fetchedFar⟩ := fetch_cyclic index longer
  have inside : far < count * inputs.length := by
    rw [← size]
    exact (List.getElem?_eq_some_iff.mp also).1
  have divides : (inputs.length : Int) ∣ (count * inputs.length : Nat) :=
    Int.ofNat_dvd.mpr (Nat.dvd_mul_left _ _)
  have same : far % inputs.length = near := by
    rw [size] at farIs
    have reduced := Int.emod_emod_of_dvd index.toInt divides
    rw [farIs, nearIs] at reduced
    exact Int.ofNat_inj.mp reduced
  rw [get_repeated count inputs far inside, same, found] at also
  rw [fetched, fetchedFar, also]

end InputMode

end StackMachine

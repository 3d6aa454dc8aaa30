import StackMachine.Sample.Axes

/-!
# Axes that pass their check

The check finds no violated condition exactly where all conditions hold. Such axes have an order on
each range, and their list lengths are natural numbers that fit a word with room to spare.
-/

namespace StackMachine.Sample

set_option autoImplicit false

theorem Range.clamp_within (range : Range) (ordered : range.low ≤ range.high) (word : Word) :
    range.low ≤ range.clamp word ∧ range.clamp word ≤ range.high := by
  have raised : range.low ≤ max word range.low := by
    change range.low ≤ if word ≤ range.low then range.low else word
    split
    · exact Int64.le_refl _
    · next above => exact Int64.le_of_lt (Int64.not_le.mp above)
  change range.low ≤ (if max word range.low ≤ range.high then max word range.low else range.high) ∧
    (if max word range.low ≤ range.high then max word range.low else range.high) ≤ range.high
  split
  · next below => exact ⟨raised, below⟩
  · exact ⟨ordered, Int64.le_refl _⟩

theorem Range.element_of_single {range : Range} (single : range.low = range.high) (word : Word)
    (within : range.low ≤ word ∧ word ≤ range.high) : word = range.low := by
  rw [← single] at within
  exact Int64.le_antisymm within.2 within.1

namespace Axes

/-- The conditions on axes. -/
structure Valid (axes : Axes) : Prop where
  ordered : ∀ axis, (axes.range axis).low ≤ (axes.range axis).high
  nonnegative : 0 ≤ axes.listLength.low
  short : axes.listLength.high ≤ maxListLength
  someInstr : 1 ≤ axes.programLength.low
  someStep : 1 ≤ axes.maxSteps.low
  someJumpMode : axes.jumpModes ≠ []
  someInputMode : axes.inputModes ≠ []

theorem mem_all_axes (axis : Axis) : axis ∈ Axis.all := by
  cases axis <;> decide

theorem inverted_none_iff (axes : Axes) :
    (Axis.all.find? fun axis => (axes.range axis).high < (axes.range axis).low) = none ↔
      ∀ axis, (axes.range axis).low ≤ (axes.range axis).high := by
  rw [List.find?_eq_none]
  simp only [decide_eq_true_eq, Int64.not_lt]
  exact ⟨fun ordered axis => ordered axis (mem_all_axes axis), fun ordered axis _ => ordered axis⟩

theorem refused_none_iff (condition : Prop) [Decidable condition] (error : AxesError)
    (rest : Option AxesError) :
    (if condition then some error else rest) = none ↔ ¬condition ∧ rest = none := by
  split <;> simp_all

theorem check_none_iff (axes : Axes) : axes.check = none ↔ axes.Valid := by
  rw [check]
  cases found : Axis.all.find? fun axis => (axes.range axis).high < (axes.range axis).low with
  | some axis =>
      constructor
      · intro passed
        cases passed
      · intro valid
        have none := (inverted_none_iff axes).mpr valid.ordered
        rw [found] at none
        cases none
  | none =>
      have ordered := (inverted_none_iff axes).mp found
      simp only [refused_none_iff, Int64.not_lt, and_true]
      constructor
      · rintro ⟨nonnegative, short, someInstr, someStep, someJumpMode, someInputMode⟩
        exact ⟨ordered, nonnegative, short, someInstr, someStep, someJumpMode, someInputMode⟩
      · rintro ⟨-, nonnegative, short, someInstr, someStep, someJumpMode, someInputMode⟩
        exact ⟨nonnegative, short, someInstr, someStep, someJumpMode, someInputMode⟩

theorem standard_passes : standard.check = none := by decide +kernel

theorem standard_valid : standard.Valid := (check_none_iff standard).mp standard_passes

/-- The inputs that the axes admit. -/
structure Admits (axes : Axes) (input : List Word) : Prop where
  atLeast : axes.listLength.low.toInt ≤ input.length
  atMost : input.length ≤ axes.listLength.high.toInt
  within : ∀ word ∈ input, axes.value.low ≤ word ∧ word ≤ axes.value.high

section

variable {axes : Axes} (valid : axes.Valid)

include valid

theorem Valid.min_length : (axes.minLength : Int) = axes.listLength.low.toInt := by
  have nonnegative := Int64.le_iff_toInt_le.mp valid.nonnegative
  exact Int.toNat_of_nonneg nonnegative

theorem Valid.max_length : (axes.maxLength : Int) = axes.listLength.high.toInt := by
  have nonnegative := Int64.le_iff_toInt_le.mp valid.nonnegative
  have ordered := Int64.le_iff_toInt_le.mp (valid.ordered .listLength)
  exact Int.toNat_of_nonneg (Int.le_trans nonnegative ordered)

theorem Valid.lengths_ordered : axes.minLength ≤ axes.maxLength := by
  have ordered := Int64.le_iff_toInt_le.mp (valid.ordered .listLength)
  have least := valid.min_length
  have greatest := valid.max_length
  simp only [range] at ordered
  omega

theorem Valid.max_length_short : axes.maxLength ≤ 1048576 := by
  have short : axes.listLength.high.toInt ≤ 1048576 := Int64.le_iff_toInt_le.mp valid.short
  have greatest := valid.max_length
  omega

theorem Valid.admits_iff (input : List Word) :
    axes.Admits input ↔
      (axes.minLength ≤ input.length ∧ input.length ≤ axes.maxLength) ∧
        ∀ word ∈ input, axes.value.low ≤ word ∧ word ≤ axes.value.high := by
  have least := valid.min_length
  have greatest := valid.max_length
  constructor
  · rintro ⟨atLeast, atMost, within⟩
    exact ⟨⟨by omega, by omega⟩, within⟩
  · rintro ⟨⟨atLeast, atMost⟩, within⟩
    exact ⟨by omega, by omega, within⟩

theorem Valid.admits_replicate (length : Nat) (word : Word)
    (bounds : axes.minLength ≤ length ∧ length ≤ axes.maxLength)
    (within : axes.value.low ≤ word ∧ word ≤ axes.value.high) :
    axes.Admits (List.replicate length word) := by
  rw [valid.admits_iff, List.length_replicate]
  refine ⟨bounds, fun other member => ?_⟩
  rw [List.eq_of_mem_replicate member]
  exact within

/-- The words between the bounds of the length are the lengths of inputs. -/
theorem Valid.drawn_length (word : Word)
    (within : axes.listLength.low ≤ word ∧ word ≤ axes.listLength.high) :
    axes.minLength ≤ word.toInt.toNat ∧ word.toInt.toNat ≤ axes.maxLength := by
  have least := valid.min_length
  have greatest := valid.max_length
  have above := Int64.le_iff_toInt_le.mp within.1
  have below := Int64.le_iff_toInt_le.mp within.2
  omega

theorem Valid.length_drawn (length : Nat)
    (bounds : axes.minLength ≤ length ∧ length ≤ axes.maxLength) :
    ∃ word : Word, (axes.listLength.low ≤ word ∧ word ≤ axes.listLength.high) ∧
      word.toInt.toNat = length := by
  have least := valid.min_length
  have greatest := valid.max_length
  have short := valid.max_length_short
  have value : (Int64.ofInt length).toInt = length :=
    Int64.toInt_ofInt_of_le (by omega) (by omega)
  refine ⟨Int64.ofInt length, ⟨?_, ?_⟩, by omega⟩
  · rw [Int64.le_iff_toInt_le]
    omega
  · rw [Int64.le_iff_toInt_le]
    omega

end

end Axes

end StackMachine.Sample

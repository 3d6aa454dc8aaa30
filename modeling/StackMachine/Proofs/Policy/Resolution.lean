import StackMachine.Proofs.Policy
import StackMachine.Proofs.Word.Exact

/-!
# Where operands land

An operand that resolves lands on one position of its row: on its own, on the nearest one, or on the
one with the same remainder, as the mode asks. A position lands on itself in every mode, so resolving
twice is resolving once. On a host that computes in words, with signed operations that are undefined
where a result does not fit, nothing undefined is asked for and the same positions come out.
-/

namespace StackMachine

set_option autoImplicit false

/-- The operand is itself a position of a row of this length. -/
def Inside (length : Nat) (operand : Word) : Prop :=
  0 ≤ operand.toInt ∧ operand.toInt < length

/-- Every other position is further away from the operand. -/
structure Nearest (length : Nat) (operand : Word) (position : Nat) : Prop where
  inside : position < length
  closest : ∀ other < length, other ≠ position →
    (operand.toInt - position).natAbs < (operand.toInt - other).natAbs

/-- The position is congruent to the operand modulo the length. -/
structure Congruent (length : Nat) (operand : Word) (position : Nat) : Prop where
  inside : position < length
  remainder : (position : Int) % length = operand.toInt % length

theorem Nearest.unique {length position other : Nat} {operand : Word}
    (first : Nearest length operand position) (second : Nearest length operand other) :
    position = other := by
  refine Classical.byContradiction fun different => ?_
  have closer := first.closest other second.inside (Ne.symm different)
  have further := second.closest position first.inside different
  exact Nat.lt_asymm closer further

theorem congruent_iff {length position : Nat} {operand : Word} (nonempty : 0 < length) :
    Congruent length operand position ↔ (operand.toInt % length).toNat = position := by
  have lower := Int.emod_nonneg operand.toInt (show (length : Int) ≠ 0 by omega)
  have upper := Int.emod_lt_of_pos operand.toInt (show 0 < (length : Int) by omega)
  constructor
  · rintro ⟨inside, remainder⟩
    rw [← remainder, Int.emod_eq_of_lt (Int.natCast_nonneg _) (Int.ofNat_lt.mpr inside),
      Int.toNat_natCast]
  · rintro rfl
    refine ⟨by omega, ?_⟩
    rw [Int.toNat_of_nonneg lower, Int.emod_emod]

namespace Word

theorem of_nat_of_to_int (word : Word) (positive : 0 ≤ word.toInt) :
    Int64.ofNat word.toInt.toNat = word := by
  rw [← Int64.ofInt_eq_ofNat, Int.toNat_of_nonneg positive, Int64.ofInt_toInt]

theorem unsigned_of_to_int (word : Word) (positive : 0 ≤ word.toInt) :
    UInt64.ofNat word.toInt.toNat = word.toUInt64 := by
  have unsigned : (Int64.ofNat word.toInt.toNat).toUInt64 = UInt64.ofNat word.toInt.toNat := rfl
  rw [← unsigned, of_nat_of_to_int word positive]

theorem positive_of_nat {length : Nat} (nonempty : 0 < length) (short : length < 2 ^ 63) :
    0 < Int64.ofNat length := by
  rw [Int64.lt_iff_toInt_lt, of_nat_to_int length short]
  exact Int.ofNat_lt.mpr nonempty

theorem floor_mod_position (operand : Word) {length : Nat} (nonempty : 0 < length)
    (short : length < 2 ^ 63) :
    Int64.ofNat (operand.toInt % length).toNat = Word.floorMod operand (Int64.ofNat length) := by
  have remainder := floor_mod_to_int operand _ (positive_of_nat nonempty short)
  have lower := Int.emod_nonneg operand.toInt (show (length : Int) ≠ 0 by omega)
  rw [of_nat_to_int length short] at remainder
  rw [← of_nat_of_to_int (Word.floorMod operand _) (by rw [remainder]; exact lower), remainder]

/-- Signed subtraction; undefined where the difference does not fit a word. -/
def Host.difference? (left right : Word) : Option Word :=
  if Int64.minValue.toInt ≤ left.toInt - right.toInt ∧
      left.toInt - right.toInt ≤ Int64.maxValue.toInt then some (left - right)
  else none

theorem Host.last_position {length : Nat} (nonempty : 0 < length) (short : length < 2 ^ 63) :
    Host.difference? (Int64.ofNat length) 1 = some (Int64.ofNat (length - 1)) := by
  have size : (Int64.ofNat length).toInt = length := of_nat_to_int length short
  have last : (Int64.ofNat (length - 1)).toInt = (length : Int) - 1 := by
    rw [of_nat_to_int _ (by omega)]
    omega
  have bounds : Int64.minValue.toInt = -2 ^ 63 ∧ Int64.maxValue.toInt = 2 ^ 63 - 1 := ⟨rfl, rfl⟩
  have one : (1 : Word).toInt = 1 := rfl
  rw [Host.difference?, if_pos (by rw [size, one]; omega), Option.some.injEq, ← Int64.toInt_inj,
    Int64.toInt_sub, size, last, one]
  exact Int.bmod_eq_of_le (by omega) (by omega)

end Word

namespace JumpMode

/-- Resolution in words. A defined answer may still be that the target has no position. -/
def hostResolve? (mode : JumpMode) (length target : Word) : Option (Option Word) :=
  if length ≤ 0 then some none
  else if 0 ≤ target ∧ target < length then some (some target)
  else
    match mode with
    | .error => some none
    | .clamp =>
        if target < 0 then some (some 0)
        else (Word.Host.difference? length 1).map some
    | .wrap => (Word.Host.floorMod? target length).map some

/-- What the modes make of a target. -/
structure Lands (length : Nat) (target : Word) : Prop where
  refused (mode : JumpMode) :
    mode.resolve? length target = none ↔ mode = .error ∧ ¬Inside length target
  inside (mode : JumpMode) (position : Nat) :
    mode.resolve? length target = some position → position < length
  itself (mode : JumpMode) (position : Nat) : Inside length target →
    (mode.resolve? length target = some position ↔ (position : Int) = target.toInt)
  nearest (position : Nat) :
    clamp.resolve? length target = some position ↔ Nearest length target position
  congruent (position : Nat) :
    wrap.resolve? length target = some position ↔ Congruent length target position
  again (mode other : JumpMode) (position : Nat) :
    mode.resolve? length target = some position →
      other.resolve? length (Int64.ofNat position) = some position
  host (mode : JumpMode) : mode.hostResolve? (Int64.ofNat length) target =
    some ((mode.resolve? length target).map Int64.ofNat)

variable {length : Nat} {target : Word}

theorem resolve_outside (mode : JumpMode) (nonempty : 0 < length)
    (outside : ¬Inside length target) :
    mode.resolve? length target =
      match mode with
      | .error => none
      | .clamp => some (if target.toInt < 0 then 0 else length - 1)
      | .wrap => some (target.toInt % length).toNat := by
  have apart : ¬(0 ≤ target.toInt ∧ target.toInt < length) := outside
  cases mode <;> simp only [resolve?, if_neg (Nat.ne_of_gt nonempty), if_neg apart]

theorem resolve_none_iff (mode : JumpMode) (nonempty : 0 < length) :
    mode.resolve? length target = none ↔ mode = .error ∧ ¬Inside length target := by
  constructor
  · exact resolve_none (Nat.ne_of_gt nonempty)
  · rintro ⟨rfl, outside⟩
    rw [resolve_outside .error nonempty outside]

theorem resolve_itself_iff (mode : JumpMode) (position : Nat) (inside : Inside length target) :
    mode.resolve? length target = some position ↔ (position : Int) = target.toInt := by
  have lower := inside.1
  rw [resolve_inside inside.1 inside.2, Option.some.injEq]
  omega

/-- A target outside is closest to the end on its side. -/
theorem nearest_of_clamp {position : Nat} (nonempty : 0 < length)
    (resolved : clamp.resolve? length target = some position) :
    Nearest length target position := by
  refine ⟨resolve_lt _ _ _ _ resolved, fun other small different => ?_⟩
  by_cases inside : Inside length target
  · have same := (resolve_itself_iff clamp position inside).mp resolved
    omega
  · rw [resolve_outside clamp nonempty inside, Option.some.injEq] at resolved
    rw [Inside] at inside
    split at resolved <;> omega

theorem resolve_clamp_iff (position : Nat) (nonempty : 0 < length) :
    clamp.resolve? length target = some position ↔ Nearest length target position := by
  refine ⟨nearest_of_clamp nonempty, fun near => ?_⟩
  cases resolved : clamp.resolve? length target with
  | none => cases ((resolve_none_iff clamp nonempty).mp resolved).1
  | some found => rw [(nearest_of_clamp nonempty resolved).unique near]

theorem resolve_wrap_iff (position : Nat) (nonempty : 0 < length) :
    wrap.resolve? length target = some position ↔ Congruent length target position := by
  rw [congruent_iff nonempty]
  by_cases inside : Inside length target
  · rw [resolve_inside inside.1 inside.2, Option.some.injEq,
      Int.emod_eq_of_lt inside.1 inside.2]
  · rw [resolve_outside wrap nonempty inside, Option.some.injEq]

theorem resolve_position (mode : JumpMode) {position : Nat} (inside : position < length)
    (short : length < 2 ^ 63) :
    mode.resolve? length (Int64.ofNat position) = some position := by
  have value : (Int64.ofNat position).toInt = position :=
    Word.of_nat_to_int position (Nat.lt_trans inside short)
  refine (resolve_itself_iff mode position ⟨?_, ?_⟩).mpr value.symm <;> rw [value] <;> omega

theorem host_resolves (mode : JumpMode) (nonempty : 0 < length) (short : length < 2 ^ 63) :
    mode.hostResolve? (Int64.ofNat length) target =
      some ((mode.resolve? length target).map Int64.ofNat) := by
  have size : (Int64.ofNat length).toInt = length := Word.of_nat_to_int length short
  have positive : 0 < Int64.ofNat length := Word.positive_of_nat nonempty short
  have inside_iff : (0 ≤ target ∧ target < Int64.ofNat length) ↔ Inside length target := by
    rw [Int64.le_iff_toInt_le, Int64.lt_iff_toInt_lt, size]
    rfl
  unfold hostResolve?
  rw [if_neg (Int64.not_le.mpr positive)]
  by_cases inside : Inside length target
  · rw [if_pos (inside_iff.mpr inside), resolve_inside inside.1 inside.2, Option.map_some,
      Word.of_nat_of_to_int target inside.1]
  rw [if_neg (mt inside_iff.mp inside), resolve_outside mode nonempty inside]
  cases mode with
  | error => rfl
  | clamp =>
      have sign : target < 0 ↔ target.toInt < 0 := Int64.lt_iff_toInt_lt
      by_cases negative : target < 0
      · simp [negative, sign.mp negative]
      · simp [negative, mt sign.mpr negative, Word.Host.last_position nonempty short]
  | wrap =>
      simp only [Word.Host.floor_mod_computes target _ positive, Option.map_some,
        ← Word.floor_mod_position target nonempty short]

end JumpMode

namespace InputMode

/-- Resolution in words: the number of inputs is counted without sign and compared with one. -/
def hostResolve? (mode : InputMode) (count : UInt64) (index : Word) : Option (Option UInt64) :=
  let signed := count.toInt64
  match mode with
  | .direct => some (if index < 0 ∨ signed ≤ index then none else some index.toUInt64)
  | .cyclic =>
      if signed = 0 then some none
      else (Word.Host.floorMod? index signed).map fun position => some position.toUInt64

/-- What the modes make of an index. -/
structure Lands (count : Nat) (index : Word) : Prop where
  refused (mode : InputMode) : mode.resolve? count index = none ↔
    (mode = .direct ∧ ¬Inside count index) ∨ (mode = .cyclic ∧ count = 0)
  itself (position : Nat) :
    direct.resolve? count index = some position ↔
      position < count ∧ (position : Int) = index.toInt
  congruent (position : Nat) :
    cyclic.resolve? count index = some position ↔ Congruent count index position
  host (mode : InputMode) : mode.hostResolve? (.ofNat count) index =
    some ((mode.resolve? count index).map UInt64.ofNat)

variable {count : Nat} {index : Word}

theorem resolve_none_iff (mode : InputMode) :
    mode.resolve? count index = none ↔
      (mode = .direct ∧ ¬Inside count index) ∨ (mode = .cyclic ∧ count = 0) := by
  cases mode with
  | direct => simp [resolve?, Inside]
  | cyclic => simp [resolve?]

theorem resolve_direct_iff (position : Nat) :
    direct.resolve? count index = some position ↔
      position < count ∧ (position : Int) = index.toInt := by
  simp only [resolve?]
  split
  · rw [Option.some.injEq]
    omega
  · simp only [reduceCtorEq, false_iff]
    omega

theorem resolve_cyclic_iff (position : Nat) :
    cyclic.resolve? count index = some position ↔ Congruent count index position := by
  simp only [resolve?]
  by_cases empty : count = 0
  · rw [if_pos empty]
    constructor
    · intro found
      cases found
    · intro congruent
      exact absurd congruent.inside (by omega)
  · rw [if_neg empty, Option.some.injEq, congruent_iff (Nat.pos_of_ne_zero empty)]

theorem host_resolves (mode : InputMode) (few : count < 2 ^ 63) :
    mode.hostResolve? (.ofNat count) index =
      some ((mode.resolve? count index).map UInt64.ofNat) := by
  have signed : (UInt64.ofNat count).toInt64 = Int64.ofNat count := rfl
  have size : (Int64.ofNat count).toInt = count := Word.of_nat_to_int count few
  cases mode with
  | direct =>
      have outside_iff : (index < 0 ∨ Int64.ofNat count ≤ index) ↔
          ¬(0 ≤ index.toInt ∧ index.toInt < count) := by
        rw [Int64.lt_iff_toInt_lt, Int64.le_iff_toInt_le, size, Int64.toInt_zero]
        omega
      simp only [hostResolve?, resolve?, signed]
      by_cases inside : 0 ≤ index.toInt ∧ index.toInt < count
      · rw [if_neg (mt outside_iff.mp (not_not_intro inside)), if_pos inside, Option.map_some,
          Word.unsigned_of_to_int index inside.1]
      · rw [if_pos (outside_iff.mpr inside), if_neg inside, Option.map_none]
  | cyclic =>
      simp only [hostResolve?, resolve?, signed]
      by_cases empty : count = 0
      · rw [if_pos (by rw [empty]; rfl), if_pos empty, Option.map_none]
      · have nonempty := Nat.pos_of_ne_zero empty
        have positive := Word.positive_of_nat nonempty few
        have nonzero : Int64.ofNat count ≠ 0 := fun zero => Int64.lt_irrefl (zero ▸ positive)
        rw [if_neg nonzero, if_neg empty, Word.Host.floor_mod_computes index _ positive,
          ← Word.floor_mod_position index nonempty few]
        rfl

end InputMode

/-- Resolved operands are in range and land where their mode asks, on a host as well. -/
theorem operands_land (length count : Nat) (target index : Word) (nonempty : 0 < length)
    (short : length < 2 ^ 63) (few : count < 2 ^ 63) :
    JumpMode.Lands length target ∧ InputMode.Lands count index := by
  refine ⟨?_, ?_⟩
  · exact
      { refused := fun mode => JumpMode.resolve_none_iff mode nonempty
        inside := fun mode position => JumpMode.resolve_lt mode length position target
        itself := JumpMode.resolve_itself_iff
        nearest := fun position => JumpMode.resolve_clamp_iff position nonempty
        congruent := fun position => JumpMode.resolve_wrap_iff position nonempty
        again := fun mode other position resolved =>
          JumpMode.resolve_position other (JumpMode.resolve_lt _ _ _ _ resolved) short
        host := fun mode => JumpMode.host_resolves mode nonempty short }
  · exact
      { refused := InputMode.resolve_none_iff
        itself := InputMode.resolve_direct_iff
        congruent := InputMode.resolve_cyclic_iff
        host := fun mode => InputMode.host_resolves mode few }

/-- The least target in a program of three instructions, and the index before the first of three
inputs. -/
theorem operands_land_least :
    (0 < 3 ∧ 3 < 2 ^ 63) ∧ Nearest 3 Int64.minValue 0 ∧ Congruent 3 Int64.minValue 1 ∧
      JumpMode.wrap.hostResolve? 3 Int64.minValue = some (some 1) ∧
      JumpMode.error.resolve? 3 (Int64.ofNat 1) = some 1 ∧ Congruent 3 (-1) 2 ∧
      InputMode.cyclic.hostResolve? 3 (-1) = some (some 2) := by
  obtain ⟨jumps, inputs⟩ :=
    operands_land 3 3 Int64.minValue (-1) (by decide) (by decide) (by decide)
  refine ⟨by decide, (jumps.nearest 0).mp ?_, (jumps.congruent 1).mp ?_, jumps.host .wrap,
    jumps.again .wrap .error 1 ?_, (inputs.congruent 2).mp ?_, inputs.host .cyclic⟩ <;> decide

end StackMachine

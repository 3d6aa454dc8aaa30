import Mathlib.Algebra.Order.Floor.Div
import Mathlib.SetTheory.Cardinal.Finite
import StackMachine.Proofs.Random.Twister

/-!
# Every word is selected equally often

The raw draws that select one word are those whose product with the number of words lies in one
interval, and the refused low halves at its lower end make the length of this interval a multiple of
that number. So it holds as many products, whichever word it stands for.
-/

namespace StackMachine.Random

set_option autoImplicit false

namespace Uniform

/-- How many words there are between the bounds. -/
def count (low high : Word) : Nat := (distance low high).toNat + 1

/-- The selection without the first test: a draw is refused if its low half is under the remainder of
`2 ^ 64` by the number of words. -/
def plain? (low high : Word) (raw : UInt64) : Option Word :=
  let product := raw.toNat * count low high
  if count low high = UInt64.size then some (raw + low.toUInt64).toInt64
  else if product % UInt64.size < UInt64.size % count low high then none
  else some (UInt64.ofNat (product / UInt64.size) + low.toUInt64).toInt64

theorem count_positive (low high : Word) : 0 < count low high := Nat.succ_pos _

theorem count_le (low high : Word) : count low high ≤ UInt64.size :=
  (distance low high).toNat_lt_size

theorem count_to_int {low high : Word} (ordered : low ≤ high) :
    (count low high : Int) = high.toInt - low.toInt + 1 := by
  rw [count, Int.natCast_add, distance_to_nat low high ordered]
  rfl

theorem threshold_is (count : Nat) (small : count ≤ UInt64.size) :
    threshold count = UInt64.size % count :=
  (Nat.mod_eq_sub_mod small).symm

/-- A low half that is not under the number of words is not under a remainder by it either. -/
theorem refused_iff (count lowHalf : Nat) (positive : 0 < count) (small : count ≤ UInt64.size) :
    (lowHalf < count ∧ lowHalf < threshold count) ↔ lowHalf < UInt64.size % count := by
  rw [threshold_is count small]
  constructor
  · exact And.right
  · intro under
    exact ⟨Nat.lt_trans under (Nat.mod_lt _ positive), under⟩

theorem full_iff (low high : Word) :
    distance low high = 0xFFFFFFFFFFFFFFFF ↔ count low high = UInt64.size := by
  have bound := (distance low high).toNat_lt_size
  rw [← UInt64.toNat_inj, count]
  change _ = UInt64.size - 1 ↔ _
  omega

theorem select_is_plain (low high : Word) (raw : UInt64) :
    select? low high raw = plain? low high raw := by
  have number : (distance low high).toNat + 1 = count low high := rfl
  simp only [select?, plain?, full_iff, number,
    refused_iff _ _ (count_positive low high) (count_le low high)]

/-- As many steps beyond the first multiple that reaches the start are multiples as far beyond it. -/
theorem ceil_add_le (start count many factor : Nat) (positive : 0 < count) :
    start ⌈/⌉ count + many ≤ factor ↔ start + many * count ≤ factor * count := by
  by_cases few : many ≤ factor
  · obtain ⟨rest, rfl⟩ := Nat.exists_eq_add_of_le' few
    rw [Nat.add_le_add_iff_right, ceilDiv_le_iff_le_mul positive, Nat.add_mul, Nat.mul_comm count,
      Nat.add_le_add_iff_right]
  · have less : factor * count < many * count :=
      Nat.mul_lt_mul_of_pos_right (Nat.lt_of_not_le few) positive
    omega

theorem multiple_between_iff (start count many factor : Nat) (positive : 0 < count) :
    (start ≤ factor * count ∧ factor * count < start + many * count) ↔
      (start ⌈/⌉ count ≤ factor ∧ factor < start ⌈/⌉ count + many) := by
  have first := ceil_add_le start count 0 factor positive
  have behind := ceil_add_le start count many factor positive
  rw [Nat.zero_mul, Nat.add_zero, Nat.add_zero] at first
  omega

theorem halves_iff (size product offset least : Nat) (positive : 0 < size) :
    (product / size = offset ∧ least ≤ product % size) ↔
      (offset * size + least ≤ product ∧ product < offset * size + size) := by
  have parts := Nat.div_add_mod' product size
  have under := Nat.mod_lt product positive
  constructor
  · rintro ⟨rfl, above⟩
    omega
  · rintro ⟨lower, upper⟩
    have same : product / size = offset := by
      rw [Nat.div_eq_iff positive]
      omega
    subst same
    omega

/-- The draws in an interval of numbers. -/
def between (first many : Nat) (fits : first + many ≤ UInt64.size) :
    {raw : UInt64 // first ≤ raw.toNat ∧ raw.toNat < first + many} ≃ Fin many where
  toFun raw := ⟨raw.val.toNat - first, by have bounds := raw.property; omega⟩
  invFun index :=
    have small : first + index.val < UInt64.size := by omega
    ⟨UInt64.ofNat (first + index.val), by rw [UInt64.toNat_ofNat_of_lt' small]; omega⟩
  left_inv raw := by
    apply Subtype.ext
    have number : first + (raw.val.toNat - first) = raw.val.toNat := by
      have bounds := raw.property
      omega
    simp only [number, UInt64.ofNat_toNat]
  right_inv index := by
    have small : first + index.val < UInt64.size := by omega
    apply Fin.ext
    simp only [UInt64.toNat_ofNat_of_lt' small, Nat.add_sub_cancel_left]

theorem card_between (first many : Nat) (fits : first + many ≤ UInt64.size) :
    Nat.card {raw : UInt64 // first ≤ raw.toNat ∧ raw.toNat < first + many} = many :=
  (Nat.card_congr (between first many fits)).trans (Nat.card_fin many)

section

variable {low high word : Word}

theorem exists_offset (ordered : low ≤ high) (above : low ≤ word) (below : word ≤ high) :
    ∃ offset < count low high, word.toInt = low.toInt + offset := by
  have lower := Int64.le_iff_toInt_le.mp above
  have upper := Int64.le_iff_toInt_le.mp below
  have number := count_to_int ordered
  refine ⟨(word.toInt - low.toInt).toNat, ?_, ?_⟩ <;> omega

theorem plain_full (full : count low high = UInt64.size) (raw : UInt64) :
    plain? low high raw = some word ↔ raw = word.toUInt64 - low.toUInt64 := by
  rw [plain?, if_pos full, Option.some.injEq]
  constructor
  · rintro rfl
    simp
  · rintro rfl
    simp

theorem plain_partial (ordered : low ≤ high) (small : count low high < UInt64.size)
    {offset : Nat} (place : word.toInt = low.toInt + offset) (raw : UInt64) :
    plain? low high raw = some word ↔
      raw.toNat * count low high / UInt64.size = offset ∧
        UInt64.size % count low high ≤ raw.toNat * count low high % UInt64.size := by
  have near : raw.toNat * count low high / UInt64.size ≤ (distance low high).toNat :=
    high_half_le low high raw
  have moved := moved_to_int low high _ ordered near
  simp only [plain?, if_neg (Nat.ne_of_lt small)]
  by_cases refused : raw.toNat * count low high % UInt64.size < UInt64.size % count low high
  · rw [if_pos refused]
    exact iff_of_false nofun fun both => Nat.not_le_of_lt refused both.2
  · have above := Nat.le_of_not_lt refused
    rw [if_neg refused, Option.some.injEq, ← Int64.toInt_inj, moved, place]
    constructor
    · intro same
      exact ⟨by omega, above⟩
    · rintro ⟨same, -⟩
      rw [same]

theorem card_plain_full (full : count low high = UInt64.size) :
    Nat.card {raw : UInt64 // plain? low high raw = some word} = 1 := by
  have unique (raw : UInt64) : plain? low high raw = some word ↔
      raw = word.toUInt64 - low.toUInt64 := plain_full full raw
  rw [Nat.card_congr (Equiv.subtypeEquivRight unique)]
  exact Nat.card_unique

/-- The products for one word make up an interval that is as long as so many multiples. -/
theorem card_plain_partial (ordered : low ≤ high) (small : count low high < UInt64.size)
    (above : low ≤ word) (below : word ≤ high) :
    Nat.card {raw : UInt64 // plain? low high raw = some word} =
      UInt64.size / count low high := by
  obtain ⟨offset, inside, place⟩ := exists_offset ordered above below
  have positive := count_positive low high
  have parts := Nat.div_add_mod' UInt64.size (count low high)
  have long : offset * UInt64.size + UInt64.size =
      offset * UInt64.size + UInt64.size % count low high +
        UInt64.size / count low high * count low high := by omega
  have fits : (offset * UInt64.size + UInt64.size % count low high) ⌈/⌉ count low high +
      UInt64.size / count low high ≤ UInt64.size := by
    rw [ceil_add_le _ _ _ _ positive, ← long, ← Nat.succ_mul, Nat.mul_comm UInt64.size]
    exact Nat.mul_le_mul_right _ inside
  have size : 0 < UInt64.size := by decide
  have selects (raw : UInt64) : plain? low high raw = some word ↔
      (offset * UInt64.size + UInt64.size % count low high) ⌈/⌉ count low high ≤ raw.toNat ∧
        raw.toNat < (offset * UInt64.size + UInt64.size % count low high) ⌈/⌉ count low high +
          UInt64.size / count low high := by
    rw [plain_partial ordered small place, halves_iff _ _ _ _ size, long,
      multiple_between_iff _ _ _ _ positive]
  rw [Nat.card_congr (Equiv.subtypeEquivRight selects)]
  exact card_between _ _ fits

end

/-- The word that a row of raw draws leads to. Only the first draw is tested against the number of
words, and where it passes no remainder is computed; otherwise all are tested against that. -/
def drawn? (low high : Word) : List UInt64 → Option Word
  | [] => none
  | raw :: later =>
      let product := raw.toNat * count low high
      if product % UInt64.size < count low high then (raw :: later).findSome? (plain? low high)
      else some (UInt64.ofNat (product / UInt64.size) + low.toUInt64).toInt64

/-- The first test neither accepts nor refuses a draw of its own. -/
theorem drawn_is_first (low high : Word) (raws : List UInt64) :
    drawn? low high raws = raws.findSome? (plain? low high) := by
  cases raws with
  | nil => rfl
  | cons raw later =>
      rw [drawn?]
      split
      · rfl
      · next passed =>
          have lowHalf : raw.toNat * count low high % UInt64.size < UInt64.size :=
            Nat.mod_lt _ (by decide)
          have under : UInt64.size % count low high < count low high :=
            Nat.mod_lt _ (count_positive low high)
          rw [List.findSome?_cons, plain?, if_neg (by omega), if_neg (by omega)]

end Uniform

namespace Twister

def raws (twister : Twister) : Nat → List UInt64
  | 0 => []
  | number + 1 => twister.next.1 :: twister.next.2.raws number

theorem answer_is_drawn (low high : Word) (attempts : Nat) (twister : Twister) :
    (answer low high attempts twister).1 =
      (Uniform.drawn? low high (twister.raws attempts)).getD low := by
  rw [Uniform.drawn_is_first]
  induction attempts generalizing twister with
  | zero => rfl
  | succ attempts ih =>
      rw [answer, raws, List.findSome?_cons, ← Uniform.select_is_plain]
      cases selected : Uniform.select? low high twister.next.1 with
      | none => simpa only [selected] using ih twister.next.2
      | some word => simp only [selected, Option.getD_some]

/-- Words are drawn uniformly. A raw draw that is not refused selects a word between the bounds, and
each of them is selected by the same number of raw draws: as many as the number of words goes into
`2 ^ 64`, which in the full range is one. The test that comes first makes no difference to which draws
are refused, and the answer is what the first draw selects that is not. The lower bound stands in where
all attempts are. -/
theorem drawn_uniformly (low high : Word) (ordered : low ≤ high) :
    (∀ raw, Uniform.select? low high raw = Uniform.plain? low high raw) ∧
    (∀ raw word, Uniform.select? low high raw = some word → low ≤ word ∧ word ≤ high) ∧
    (∀ word, low ≤ word → word ≤ high →
      Nat.card {raw : UInt64 // Uniform.select? low high raw = some word} =
        2 ^ 64 / (high.toInt - low.toInt + 1).toNat) ∧
    (high.toInt - low.toInt + 1 = 2 ^ 64 → ∀ word,
      Nat.card {raw : UInt64 // Uniform.select? low high raw = some word} = 1) ∧
    ∀ attempts twister, (answer low high attempts twister).1 =
      (Uniform.drawn? low high (twister.raws attempts)).getD low := by
  have number := Uniform.count_to_int ordered
  have limit := Uniform.count_le low high
  have size : UInt64.size = 2 ^ 64 := rfl
  refine ⟨Uniform.select_is_plain low high,
    fun raw word => Uniform.select_within low high raw word ordered, ?_, ?_,
    answer_is_drawn low high⟩
  · intro word above below
    have same : (high.toInt - low.toInt + 1).toNat = Uniform.count low high := by omega
    simp only [Uniform.select_is_plain]
    rw [same, ← size]
    rcases Nat.lt_or_eq_of_le limit with small | full
    · exact Uniform.card_plain_partial ordered small above below
    · rw [Uniform.card_plain_full full, full]
      rfl
  · intro width word
    simp only [Uniform.select_is_plain]
    exact Uniform.card_plain_full (by omega)

/-- The widest range that is not the full one, where one raw draw is refused. -/
theorem drawn_uniformly_widest :
    Int64.minValue ≤ (9223372036854775806 : Word) ∧
      Nat.card {raw : UInt64 //
        Uniform.select? Int64.minValue 9223372036854775806 raw = some (-1)} = 1 ∧
      Uniform.select? Int64.minValue 9223372036854775806 0 = none ∧
      Nat.card {raw : UInt64 // Uniform.select? (-1) 1 raw = some 0} = 6148914691236517205 := by
  have ordered : Int64.minValue ≤ (9223372036854775806 : Word) := by decide
  obtain ⟨plain, -, wide, -, -⟩ := drawn_uniformly Int64.minValue 9223372036854775806 ordered
  obtain ⟨-, -, three, -, -⟩ := drawn_uniformly (-1) 1 (by decide)
  refine ⟨ordered, ?_, ?_, ?_⟩
  · rw [wide (-1) (by decide) (by decide)]
    decide
  · rw [plain 0]
    decide
  · rw [three 0 (by decide) (by decide)]
    decide

end Twister

end StackMachine.Random

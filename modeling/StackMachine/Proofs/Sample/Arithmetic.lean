import Mathlib.Control.Lawful
import StackMachine.Proofs.Machine.Engine
import StackMachine.Proofs.Sample.Query
import StackMachine.Proofs.Word
import StackMachine.Random.Uniform

/-!
# The arithmetic of queries

The generation once more, on words and with signed operations that are undefined where the exact
result is no word or the divisor is zero. Along axes that pass their check none of them is, not even
where the values run through all words, and the queries come out the same.
-/

namespace StackMachine.Sample.Query

set_option autoImplicit false

open StackMachine.Random

/-- The word of an integer; undefined where there is none. -/
def fit? (value : Int) : Option Word :=
  if Int64.minValue.toInt ≤ value ∧ value ≤ Int64.maxValue.toInt then some (Int64.ofInt value)
  else none

def sum? (left right : Word) : Option Word := fit? (left.toInt + right.toInt)

def difference? (left right : Word) : Option Word := fit? (left.toInt - right.toInt)

/-- The values of a counter in as many rounds, each after the first an increment of the last. -/
def countFrom? (counter : Word) : Nat → Option (List Word)
  | 0 => some []
  | rounds + 1 => do
      let next ← sum? counter 1
      return counter :: (← countFrom? next rounds)

def indices? (bound : Word) : Option (List Word) := countFrom? 0 bound.toInt.toNat

/-- The middle of two words, by their distance without sign. -/
def middle? (low high : Word) : Option Word :=
  sum? low (Uniform.distance low high / 2).toInt64

/-- A random computation in which an operation may be undefined. -/
def defined {α : Type} (value : Option α) : OptionT Draw α := OptionT.mk (pure value)

def shortWord (axes : Axes) : Word := min (max axes.listLength.low 1) axes.listLength.high

def randomInput? (axes : Axes) (length : Word) : OptionT Draw (List Word) := do
  let indices ← defined (indices? length)
  OptionT.lift (Draw.words axes.value.low axes.value.high indices.length)

def coverageLengths? (axes : Axes) : Option (List Nat) := do
  let middle ← middle? axes.listLength.low axes.listLength.high
  return distinct
    [axes.listLength.low.toInt.toNat, (shortWord axes).toInt.toNat, middle.toInt.toNat]

def coverageInputs? (axes : Axes) : OptionT Draw (List (List Word)) := do
  let lengths ← defined (coverageLengths? axes)
  lengths.mapM fun length => randomInput? axes (Int64.ofNat length)

def typicalInputs? (axes : Axes) : OptionT Draw (List (List Word)) :=
  (List.range typicalCount).mapM fun _ => do
    let length ← OptionT.lift (Draw.word axes.listLength.low axes.listLength.high)
    randomInput? axes length

def adversarialInputs? (axes : Axes) : Option (List (List Word)) := do
  let indices ← indices? (shortWord axes)
  return [indices.map fun index => axes.value.clamp (patternElement index.toInt.toNat),
    List.replicate (shortWord axes).toInt.toNat (axes.value.clamp 0)]

def valueSpan? (axes : Axes) : Option Word :=
  let width := Uniform.distance axes.value.low axes.value.high
  if Int64.maxValue.toUInt64 ≤ width then some Int64.maxValue else sum? width.toInt64 1

def lengthSpan? (axes : Axes) : Option Word := do
  let gap ← difference? axes.listLength.high axes.listLength.low
  return max 1 (← sum? gap 1)

def candidate? (axes : Axes) (values lengths attempt : Word) : Option (List Word) :=
  if axes.listLength.high = 0 then some []
  else do
    let extra ← Engine.remainder? attempt lengths
    let length ← sum? axes.listLength.low extra
    let indices ← indices? length
    indices.mapM fun index => do
      let turn ← sum? attempt index
      let offset ← Engine.remainder? turn values
      return axes.value.clamp (Word.add axes.value.low offset)

def searched? (axes : Axes) : Option (List (List Word)) := do
  let values ← valueSpan? axes
  let lengths ← lengthSpan? axes
  let rounds ← indices? (Int64.ofNat attempts)
  rounds.mapM (candidate? axes values lengths)

def backfillFrom (candidates : List (List Word)) (program : Program) (queries : List Query)
    (tag : QueryTag) : List Query :=
  if queries.any (·.tag = tag) then queries
  else
    match candidates.find? fun input => queries.all (·.input != input) with
    | some input => queries ++ [ask program tag input]
    | none => queries

def generate? (program : Program) (axes : Axes) : OptionT Draw (List Query) := do
  let coverage ← coverageInputs? axes
  let typical ← typicalInputs? axes
  let adversarial ← defined (adversarialInputs? axes)
  let candidates ← defined (searched? axes)
  let proposed := coverage.map (ask program .coverage) ++
    (boundaryInputs axes).map (ask program .boundary) ++
    typical.map (ask program .typical) ++ adversarial.map (ask program .adversarial)
  return QueryTag.all.foldl (backfillFrom candidates program) (distinctInputs proposed)

theorem fit_of_bounds (value : Int) (above : -9223372036854775808 ≤ value)
    (below : value < 9223372036854775808) : fit? value = some (Int64.ofInt value) := by
  have least : Int64.minValue.toInt = -9223372036854775808 := rfl
  have greatest : Int64.maxValue.toInt = 9223372036854775807 := rfl
  exact if_pos ⟨by omega, by omega⟩

theorem sum_of_counts (left right : Nat) (small : left + right < 9223372036854775808) :
    sum? (Int64.ofNat left) (Int64.ofNat right) = some (Int64.ofNat (left + right)) := by
  rw [sum?, Word.of_nat_to_int left (by omega), Word.of_nat_to_int right (by omega),
    fit_of_bounds _ (by omega) (by omega), ← Int.natCast_add, Int64.ofInt_eq_ofNat]

theorem difference_of_counts (left right : Nat) (ordered : right ≤ left)
    (small : left < 9223372036854775808) :
    difference? (Int64.ofNat left) (Int64.ofNat right) = some (Int64.ofNat (left - right)) := by
  rw [difference?, Word.of_nat_to_int left small, Word.of_nat_to_int right (by omega),
    fit_of_bounds _ (by omega) (by omega), ← Int.natCast_sub ordered, Int64.ofInt_eq_ofNat]

theorem remainder_of_counts (left right : Nat) (positive : 0 < right)
    (first : left < 9223372036854775808) (second : right < 9223372036854775808) :
    Engine.remainder? (Int64.ofNat left) (Int64.ofNat right) = some (Int64.ofNat (left % right)) := by
  have dividend := Word.of_nat_to_int left first
  have divisor := Word.of_nat_to_int right second
  have less : left % right < right := Nat.mod_lt left positive
  have nonzero : Int64.ofNat right ≠ 0 := by
    intro zero
    rw [zero] at divisor
    have value : (0 : Word).toInt = 0 := rfl
    omega
  have notLeast : ¬(Int64.ofNat left = Int64.minValue ∧ Int64.ofNat right = -1) := by
    rintro ⟨-, minusOne⟩
    rw [minusOne] at divisor
    have value : (-1 : Word).toInt = -1 := rfl
    omega
  rw [Engine.remainder?, if_neg (not_or.mpr ⟨nonzero, notLeast⟩)]
  refine congrArg some (Int64.toInt.inj ?_)
  rw [Int64.toInt_mod, dividend, divisor, Word.of_nat_to_int _ (by omega), Int.ofNat_tmod]

theorem count_from_counts (start rounds : Nat) (small : start + rounds < 9223372036854775808) :
    countFrom? (Int64.ofNat start) rounds =
      some ((List.range rounds).map fun index => Int64.ofNat (start + index)) := by
  induction rounds generalizing start with
  | zero => rfl
  | succ rounds ih =>
      have next : sum? (Int64.ofNat start) 1 = some (Int64.ofNat (start + 1)) :=
        sum_of_counts start 1 (by omega)
      have rest := ih (start + 1) (by omega)
      rw [countFrom?, next]
      simp only [Option.bind_eq_bind, Option.bind_some, rest, List.range_succ_eq_map, List.map_cons,
        List.map_map, Nat.add_zero, Option.pure_def, Option.some.injEq, List.cons.injEq, true_and]
      refine List.map_congr_left fun index _ => ?_
      rw [Function.comp_apply, Nat.add_assoc, Nat.add_comm 1 index]

/-- The counter of a loop stays below the bound, so its increments fit. -/
theorem indices_of_bound (bound : Word) :
    indices? bound = some ((List.range bound.toInt.toNat).map Int64.ofNat) := by
  have greatest := bound.toInt_le
  have range : Int64.maxValue.toInt = 9223372036854775807 := rfl
  have counted := count_from_counts 0 bound.toInt.toNat (by omega)
  simp only [Nat.zero_add] at counted
  exact counted

theorem mapM_of_defined {α β : Type} (items : List α) (attempt : α → Option β) (value : α → β)
    (each : ∀ item ∈ items, attempt item = some (value item)) :
    items.mapM attempt = some (items.map value) := by
  induction items with
  | nil => rfl
  | cons item items ih =>
      have first := each item (by simp)
      have rest := ih fun other member => each other (List.mem_cons_of_mem _ member)
      simp [List.mapM_cons, first, rest]

theorem signed_of_count (count : UInt64) : count.toInt64 = Int64.ofNat count.toNat := by
  rw [← UInt64.toInt64_ofNat', UInt64.ofNat_toNat]

theorem value_count_bounds (axes : Axes) :
    0 < valueCount axes ∧ valueCount axes < 9223372036854775808 := by
  have greatest : Int64.maxValue.toInt.toNat = 9223372036854775807 := rfl
  rw [valueCount, greatest]
  omega

section

variable {axes : Axes} (valid : axes.Valid)

include valid

theorem least_length_word : axes.listLength.low = Int64.ofNat axes.minLength := by
  have least := valid.min_length
  have short := valid.max_length_short
  have ordered := valid.lengths_ordered
  refine Int64.toInt.inj ?_
  rw [Word.of_nat_to_int _ (by omega), least]

theorem greatest_length_word : axes.listLength.high = Int64.ofNat axes.maxLength := by
  have greatest := valid.max_length
  have short := valid.max_length_short
  refine Int64.toInt.inj ?_
  rw [Word.of_nat_to_int _ (by omega), greatest]

theorem middle_defined :
    middle? axes.listLength.low axes.listLength.high = some (Int64.ofNat (middleLength axes)) := by
  have least := valid.min_length
  have greatest := valid.max_length
  have short := valid.max_length_short
  have apart := Uniform.distance_to_nat _ _ (valid.ordered .listLength)
  simp only [Axes.range] at apart
  have half : (Uniform.distance axes.listLength.low axes.listLength.high / 2).toNat =
      (axes.maxLength - axes.minLength) / 2 := by
    have two : (2 : UInt64).toNat = 2 := rfl
    rw [UInt64.toNat_div, two]
    omega
  rw [middle?, signed_of_count, half, least_length_word valid, sum_of_counts _ _ (by omega),
    middleLength]

theorem short_word : shortWord axes = Int64.ofNat (shortLength axes) := by
  have least := valid.min_length
  have greatest := valid.max_length
  have short := valid.max_length_short
  have one : (1 : Word).toInt = 1 := rfl
  have value : (Int64.ofNat (shortLength axes)).toInt = shortLength axes :=
    Word.of_nat_to_int _ (by rw [shortLength]; omega)
  refine Int64.toInt.inj ?_
  rw [value, shortLength, shortWord, Word.min_to_int, Word.max_to_int]
  omega

theorem value_span_defined : valueSpan? axes = some (Int64.ofNat (valueCount axes)) := by
  have apart := Uniform.distance_to_nat _ _ (valid.ordered .value)
  have greatest : Int64.maxValue.toInt.toNat = 9223372036854775807 := rfl
  have bound : Int64.maxValue.toUInt64.toNat = 9223372036854775807 := rfl
  simp only [Axes.range] at apart
  simp only [valueSpan?, UInt64.le_iff_toNat_le, bound]
  split
  · next wide =>
      have count : valueCount axes = 9223372036854775807 := by
        rw [valueCount, greatest]
        omega
      rw [count]
      rfl
  · next narrow =>
      have count : valueCount axes = (Uniform.distance axes.value.low axes.value.high).toNat + 1 := by
        rw [valueCount, greatest]
        omega
      rw [signed_of_count, count]
      exact sum_of_counts _ 1 (by omega)

theorem length_span_defined : lengthSpan? axes = some (Int64.ofNat (lengthCount axes)) := by
  have short := valid.max_length_short
  have ordered := valid.lengths_ordered
  have gap : difference? axes.listLength.high axes.listLength.low =
      some (Int64.ofNat (axes.maxLength - axes.minLength)) := by
    rw [least_length_word valid, greatest_length_word valid,
      difference_of_counts _ _ ordered (by omega)]
  have count : sum? (Int64.ofNat (axes.maxLength - axes.minLength)) 1 =
      some (Int64.ofNat (lengthCount axes)) := sum_of_counts _ 1 (by omega)
  have positive : 1 ≤ Int64.ofNat (lengthCount axes) := by
    have one : (1 : Word).toInt = 1 := rfl
    rw [Int64.le_iff_toInt_le, Word.of_nat_to_int _ (by rw [lengthCount]; omega), one, lengthCount]
    omega
  have greater : max 1 (Int64.ofNat (lengthCount axes)) = Int64.ofNat (lengthCount axes) :=
    if_pos positive
  rw [lengthSpan?, gap]
  simp only [Option.bind_eq_bind, Option.bind_some, count, greater, Option.pure_def]

theorem candidate_defined (attempt : Nat) (early : attempt < attempts) :
    candidate? axes (Int64.ofNat (valueCount axes)) (Int64.ofNat (lengthCount axes))
      (Int64.ofNat attempt) = some (candidate axes attempt) := by
  have short := valid.max_length_short
  have ordered := valid.lengths_ordered
  have few : attempts = 32 := rfl
  have lengths : lengthCount axes = axes.maxLength - axes.minLength + 1 := rfl
  have values := value_count_bounds axes
  have empty_iff : axes.listLength.high = 0 ↔ axes.maxLength = 0 := by
    rw [greatest_length_word valid, ← Int64.toInt_inj, Word.of_nat_to_int _ (by omega)]
    exact Int.natCast_eq_zero
  rw [candidate?, candidate]
  simp only [empty_iff]
  split
  · rfl
  · have turn : attempt % lengthCount axes < lengthCount axes := Nat.mod_lt _ (by omega)
    have small : axes.minLength + attempt % lengthCount axes < 9223372036854775808 := by omega
    have extra := remainder_of_counts attempt (lengthCount axes) (by omega) (by omega) (by omega)
    have length := sum_of_counts axes.minLength (attempt % lengthCount axes) small
    simp only [extra, least_length_word valid, length, Option.bind_eq_bind, Option.bind_some,
      indices_of_bound, Word.of_nat_to_int _ small, Int.toNat_natCast]
    rw [List.mapM_map]
    refine mapM_of_defined _ _ _ fun index member => ?_
    have below := List.mem_range.mp member
    have offset := remainder_of_counts (attempt + index) (valueCount axes) values.1 (by omega)
      values.2
    simp only [Function.comp_apply, sum_of_counts attempt index (by omega), Option.bind_some, offset,
      Option.pure_def]

theorem searched_defined : searched? axes = some (searched axes) := by
  rw [searched?, value_span_defined valid, length_span_defined valid]
  simp only [Option.bind_eq_bind, Option.bind_some, indices_of_bound,
    Word.of_nat_to_int attempts (by decide), Int.toNat_natCast]
  rw [List.mapM_map]
  exact mapM_of_defined _ _ _ fun attempt member =>
    candidate_defined valid attempt (List.mem_range.mp member)

theorem short_word_count : (shortWord axes).toInt.toNat = shortLength axes := by
  have short := valid.max_length_short
  rw [short_word valid, Word.of_nat_to_int _ (by rw [shortLength]; omega), Int.toNat_natCast]

theorem coverage_lengths_defined : coverageLengths? axes = some (coverageLengths axes) := by
  have short := valid.max_length_short
  have ordered := valid.lengths_ordered
  have middle : (Int64.ofNat (middleLength axes)).toInt.toNat = middleLength axes := by
    rw [Word.of_nat_to_int _ (by rw [middleLength]; omega), Int.toNat_natCast]
  rw [coverageLengths?, middle_defined valid]
  simp only [Option.bind_eq_bind, Option.bind_some, Option.pure_def, short_word_count valid, middle]
  rfl

theorem adversarial_defined : adversarialInputs? axes = some (adversarialInputs axes) := by
  have short := valid.max_length_short
  rw [adversarialInputs?, indices_of_bound, short_word_count valid]
  simp only [Option.bind_eq_bind, Option.bind_some, Option.pure_def, adversarialInputs,
    List.map_map]
  refine congrArg (fun pattern => some [pattern, _]) (List.map_congr_left fun index member => ?_)
  have below := List.mem_range.mp member
  rw [Function.comp_apply, Word.of_nat_to_int _ (by rw [shortLength] at below; omega),
    Int.toNat_natCast]

end

theorem defined_some {α : Type} (value : α) :
    defined (some value) = (pure value : OptionT Draw α) := rfl

theorem lift_map_sequence {Item α : Type} (items : List Item) (draw : Item → Draw α)
    (draw? : Item → OptionT Draw α) (each : ∀ item ∈ items, draw? item = OptionT.lift (draw item)) :
    items.mapM draw? = OptionT.lift (Draw.sequence (items.map draw)) := by
  induction items with
  | nil => rfl
  | cons item items ih =>
      have first := each item (by simp)
      have rest := ih fun other member => each other (List.mem_cons_of_mem _ member)
      rw [List.mapM_cons, first, rest, List.map_cons, Draw.sequence]
      simp only [OptionT.lift_bind]
      rfl

theorem random_input_defined (axes : Axes) (length : Word) :
    randomInput? axes length = OptionT.lift (randomInput axes length.toInt.toNat) := by
  rw [randomInput?, indices_of_bound, defined_some, pure_bind, List.length_map, List.length_range]
  rfl

theorem typical_defined (axes : Axes) :
    typicalInputs? axes = OptionT.lift (typicalInputs axes) := by
  rw [typicalInputs?, typicalInputs, ← List.length_range (n := typicalCount), ← List.map_const']
  refine lift_map_sequence _ _ _ fun _ _ => ?_
  simp only [random_input_defined, ← OptionT.lift_bind]
  rfl

theorem coverage_defined {axes : Axes} (valid : axes.Valid) :
    coverageInputs? axes = OptionT.lift (coverageInputs axes) := by
  have short := valid.max_length_short
  rw [coverageInputs?, coverage_lengths_defined valid, defined_some, pure_bind]
  refine lift_map_sequence _ _ _ fun length member => ?_
  have bound := (coverage_length_bounds valid length member).2
  rw [random_input_defined, Word.of_nat_to_int _ (by omega), Int.toNat_natCast]

theorem backfill_from_searched (program : Program) (axes : Axes) (queries : List Query)
    (tag : QueryTag) :
    backfillFrom (searched axes) program queries tag = backfill program axes queries tag := by
  rw [backfillFrom, backfill, searched, List.find?_map]
  split
  · rfl
  · simp only [Function.comp_def]
    cases (List.range attempts).find? fun attempt =>
      queries.all (·.input != candidate axes attempt) <;> rfl

/-- No operation is undefined, whatever the draws, and the queries are the generated ones. -/
theorem generate_defined (program : Program) {axes : Axes} (valid : axes.Valid) :
    generate? program axes = OptionT.lift (generate program axes) := by
  have searches : backfillFrom (searched axes) program = backfill program axes :=
    funext fun queries => funext fun tag => backfill_from_searched program axes queries tag
  rw [generate?, coverage_defined valid, typical_defined, adversarial_defined valid,
    searched_defined valid, generate, proposals]
  simp only [defined_some, OptionT.lift_bind, OptionT.lift_pure, bind_assoc, pure_bind, searches]

end StackMachine.Sample.Query

import StackMachine.Proofs.Sample.Tags
import StackMachine.Proofs.Word

/-!
# Queries are distinct and answered

Whatever the draws were, no input occurs twice and each query holds the answer of the machine. Its
input is one of those proposed or searched for, and these are so few that axes with more admitted
inputs leave one of them free; there the search misses no reason.
-/

namespace StackMachine.Sample.Query

set_option autoImplicit false

open StackMachine.Random

/-- Queries for a program that are worth keeping. -/
structure Sound (program : Program) (queries : List Query) : Prop where
  distinct : (inputs queries).Nodup
  answered : ∀ query ∈ queries, query.output = program.evaluate query.input

theorem nodup_distinct_inputs (queries : List Query) : (inputs (distinctInputs queries)).Nodup := by
  induction queries using List.reverseRecOn with
  | nil => exact List.nodup_nil
  | append_singleton front last ih =>
      rcases distinct_inputs_append front last with ⟨-, same⟩ | ⟨fresh, grown⟩
      · rw [same]
        exact ih
      · rw [grown, inputs, List.map_append]
        exact ih.append (List.nodup_singleton _) (by simpa [inputs] using fresh)

theorem mem_of_kept (queries : List Query) (query : Query) (kept : query ∈ distinctInputs queries) :
    query ∈ queries :=
  List.mem_of_find?_eq_some ((kept_iff queries query).mp kept)

theorem sound_unrepeated (program : Program) (axes : Axes) (coverage typical : List (List Word)) :
    Sound program (unrepeated program axes coverage typical) := by
  refine ⟨nodup_distinct_inputs _, fun query kept => ?_⟩
  have proposal := mem_of_kept _ query kept
  simp only [proposed, List.mem_append, List.mem_map] at proposal
  rcases proposal with ((⟨_, -, rfl⟩ | ⟨_, -, rfl⟩) | ⟨_, -, rfl⟩) | ⟨_, -, rfl⟩ <;> rfl

theorem sound_ask {program : Program} {queries : List Query} (sound : Sound program queries)
    (tag : QueryTag) (input : List Word) (fresh : input ∉ inputs queries) :
    Sound program (queries ++ [ask program tag input]) := by
  constructor
  · rw [inputs, List.map_append]
    exact sound.distinct.append (List.nodup_singleton _) (by simpa [inputs, ask] using fresh)
  · intro query member
    rcases List.mem_append.mp member with known | added
    · exact sound.answered query known
    · rw [List.mem_singleton.mp added]
      rfl

/-- What a search leaves: the same queries, or one more for a reason that none was about, on an
input that it tried. -/
theorem backfill_cases (program : Program) (axes : Axes) (queries : List Query) (tag : QueryTag) :
    backfill program axes queries tag = queries ∨
      (∀ query ∈ queries, query.tag ≠ tag) ∧ ∃ input ∈ searched axes, input ∉ inputs queries ∧
        backfill program axes queries tag = queries ++ [ask program tag input] := by
  by_cases present : ∃ query ∈ queries, query.tag = tag
  · exact .inl (backfill_present program axes queries tag present)
  · have absent : ∀ query ∈ queries, query.tag ≠ tag :=
      fun query member same => present ⟨query, member, same⟩
    rcases backfill_absent program axes queries tag absent with found | ⟨-, same⟩
    · exact .inr ⟨absent, found⟩
    · exact .inl same

/-- Every search keeps what holds of the queries and survives one more on an input that it tried. -/
theorem completed_of_step (program : Program) (axes : Axes) (coverage typical : List (List Word))
    (holds : List Query → Prop) (start : holds (unrepeated program axes coverage typical))
    (step : ∀ queries tag input, holds queries → (∀ query ∈ queries, query.tag ≠ tag) →
      input ∈ searched axes → input ∉ inputs queries → holds (queries ++ [ask program tag input])) :
    holds (completed program axes coverage typical) := by
  have searches (tags : List QueryTag) (queries : List Query) (before : holds queries) :
      holds (tags.foldl (backfill program axes) queries) := by
    induction tags generalizing queries with
    | nil => exact before
    | cons tag tags ih =>
        refine ih _ ?_
        rcases backfill_cases program axes queries tag with
          same | ⟨absent, input, tried, free, added⟩
        · rw [same]
          exact before
        · rw [added]
          exact step queries tag input before absent tried free
  exact searches QueryTag.all _ start

theorem sound_completed (program : Program) (axes : Axes) (coverage typical : List (List Word)) :
    Sound program (completed program axes coverage typical) :=
  completed_of_step program axes coverage typical (Sound program)
    (sound_unrepeated program axes coverage typical)
    fun _ tag input sound _ _ fresh => sound_ask sound tag input fresh

theorem sound_generate (program : Program) (axes : Axes) (queries : List Query)
    (drawn : (generate program axes).Yields queries) : Sound program queries := by
  obtain ⟨coverage, typical, -, -, rfl⟩ := (yields_generate program axes queries).mp drawn
  exact sound_completed program axes coverage typical

/-- All inputs that a query may be about. -/
def asked (axes : Axes) (coverage typical : List (List Word)) : List (List Word) :=
  coverage ++ boundaryInputs axes ++ typical ++ adversarialInputs axes ++ searched axes

theorem inputs_asked (program : Program) (axes : Axes) (coverage typical : List (List Word)) :
    inputs (completed program axes coverage typical) ⊆ asked axes coverage typical := by
  refine completed_of_step program axes coverage typical
    (fun queries => inputs queries ⊆ asked axes coverage typical) ?_ ?_
  · intro input member
    simp only [asked, List.mem_append]
    rcases (inputs_of_unrepeated program axes coverage typical input).mp member with
      covered | boundary | drawn | adversarial
    · exact .inl (.inl (.inl (.inl covered)))
    · exact .inl (.inl (.inl (.inr boundary)))
    · exact .inl (.inl (.inr drawn))
    · exact .inl (.inr adversarial)
  · intro queries tag input known _ tried _ other member
    rcases (inputs_append queries _ other).mp member with earlier | rfl
    · exact known earlier
    · exact List.mem_append_right _ tried

theorem coverage_few (axes : Axes) (coverage : List (List Word))
    (lengths : coverage.map List.length = coverageLengths axes) : coverage.length ≤ 3 := by
  have bound := (nodup_distinct [axes.minLength, shortLength axes, middleLength axes])
    |>.length_le_of_subset fun length member => (mem_distinct _ length).mp member
  rw [← List.length_map List.length, lengths]
  exact bound

theorem boundary_few (axes : Axes) : (boundaryInputs axes).length ≤ 4 := by
  have bound := (nodup_distinct [axes.minLength, axes.maxLength])
    |>.length_le_of_subset fun length member => (mem_distinct _ length).mp member
  simp only [boundaryInputs, List.length_flatMap, List.length_cons, List.length_nil,
    List.map_const', List.sum_replicate_nat] at bound ⊢
  omega

/-- Three coverage inputs at most, four at the boundary, four typical ones, two adversarial ones and
one for each attempt of a search. -/
theorem asked_few (axes : Axes) (coverage typical : List (List Word))
    (lengths : coverage.map List.length = coverageLengths axes)
    (four : typical.length = typicalCount) :
    (asked axes coverage typical).length ≤ 13 + attempts := by
  have few := coverage_few axes coverage lengths
  have boundary := boundary_few axes
  simp only [asked, List.length_append, four, typicalCount, adversarialInputs, searched,
    List.length_cons, List.length_nil, List.length_map, List.length_range]
  omega

/-- With more admitted inputs than queries could ever ask about, every reason has a query. -/
theorem every_tag (program : Program) (axes : Axes) (valid : axes.Valid)
    (enough : SearchSuffices axes) (many : List (List Word)) (distinct : many.Nodup)
    (admitted : ∀ input ∈ many, axes.Admits input) (more : 13 + attempts < many.length)
    (queries : List Query) (drawn : (generate program axes).Yields queries) (tag : QueryTag) :
    ∃ query ∈ queries, query.tag = tag := by
  obtain ⟨coverage, typical, drawnCoverage, drawnTypical, rfl⟩ :=
    (yields_generate program axes queries).mp drawn
  have lengths := ((yields_coverage axes coverage).mp drawnCoverage).1
  have four := ((yields_typical valid typical).mp drawnTypical).1
  by_contra missing
  have absent : ∀ query ∈ completed program axes coverage typical, query.tag ≠ tag :=
    fun query member same => missing ⟨query, member, same⟩
  have kept := tags_kept_of_suffices program axes valid enough coverage typical drawnCoverage
    drawnTypical tag absent
  have included : many ⊆ asked axes coverage typical := by
    intro input member
    exact inputs_asked program axes coverage typical (kept input (admitted input member))
  have count := distinct.length_le_of_subset included
  have bound := asked_few axes coverage typical lengths four
  omega

theorem single_admitted (element : Nat) (small : element < 51) :
    Axes.standard.Admits [Int64.ofNat element] := by
  have value := Word.of_nat_to_int element (by omega)
  have low : Axes.standard.value.low.toInt = -50 := rfl
  have high : Axes.standard.value.high.toInt = 50 := rfl
  refine Axes.standard_valid.admits_replicate 1 _ (by decide) ⟨?_, ?_⟩
  · rw [Int64.le_iff_toInt_le]
    omega
  · rw [Int64.le_iff_toInt_le]
    omega

theorem every_tag_standard (program : Program) (queries : List Query)
    (drawn : (generate program .standard).Yields queries) (tag : QueryTag) :
    ∃ query ∈ queries, query.tag = tag := by
  have enough : SearchSuffices Axes.standard := .inl (by decide +kernel)
  let singles : List (List Word) := (List.range 51).map fun element => [Int64.ofNat element]
  have distinct : singles.Nodup := by
    refine List.Nodup.map_on (fun left first right second same => ?_) List.nodup_range
    have values : (Int64.ofNat left).toInt = (Int64.ofNat right).toInt :=
      congrArg Int64.toInt (List.singleton_inj.mp same)
    have low := List.mem_range.mp first
    have high := List.mem_range.mp second
    rw [Word.of_nat_to_int left (by omega), Word.of_nat_to_int right (by omega)] at values
    exact Int.ofNat_inj.mp values
  have admitted : ∀ input ∈ singles, Axes.standard.Admits input := by
    intro input member
    obtain ⟨element, small, rfl⟩ := List.mem_map.mp member
    exact single_admitted element (List.mem_range.mp small)
  have more : 13 + attempts < singles.length := by simp [singles, attempts]
  exact every_tag program .standard Axes.standard_valid enough singles distinct admitted more
    queries drawn tag

end StackMachine.Sample.Query

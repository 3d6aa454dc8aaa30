import Mathlib.Data.List.Dedup
import StackMachine.Proofs.Sample.Query

/-!
# When every reason has a query

The search for a missing reason tries a fixed row of inputs, so a reason may stay without a query
although an admitted input is free. The inputs it tries and the adversarial ones are contested: a
reason is lost only when the other queries take all of them, and apart from the boundary inputs
these are one coverage input of each length and four typical ones. So either there are more
contested inputs than that, or a free input is one that the search overlooks, and then some answers
to the draws do lose a reason.
-/

namespace StackMachine.Sample.Query

set_option autoImplicit false

open StackMachine.Random

/-- Every reason has a query, or else the queries leave no admitted input out. -/
def TagsKept (axes : Axes) (queries : List Query) : Prop :=
  ∀ tag, (∀ query ∈ queries, query.tag ≠ tag) →
    ∀ input, axes.Admits input → input ∈ inputs queries

/-- The inputs that the search tries and the adversarial ones, apart from the boundary inputs. -/
def contested (axes : Axes) : List (List Word) :=
  (searched axes ++ adversarialInputs axes).dedup.filter fun input => input ∉ boundaryInputs axes

/-- The coverage lengths that a contested input has. -/
def reachedLengths (axes : Axes) : List Nat :=
  (coverageLengths axes).filter fun length =>
    (contested axes).any fun input => input.length = length

/-- There are more contested inputs than the random ones can take, or the search overlooks no
admitted input. -/
def SearchSuffices (axes : Axes) : Prop :=
  (reachedLengths axes).length + typicalCount < (contested axes).length ∨
    ∀ input, axes.Admits input → input ∈ searched axes ++ adversarialInputs axes ∨
      input ∈ boundaryInputs axes

theorem mem_contested (axes : Axes) (input : List Word) :
    input ∈ contested axes ↔
      input ∈ searched axes ++ adversarialInputs axes ∧ input ∉ boundaryInputs axes := by
  simp [contested]

theorem nodup_contested (axes : Axes) : (contested axes).Nodup :=
  (List.nodup_dedup _).filter _

theorem mem_reached (axes : Axes) (length : Nat) :
    length ∈ reachedLengths axes ↔
      length ∈ coverageLengths axes ∧ ∃ input ∈ contested axes, input.length = length := by
  simp [reachedLengths]

theorem reached_few (axes : Axes) : (reachedLengths axes).length ≤ 3 := by
  have included : reachedLengths axes ⊆ [axes.minLength, shortLength axes, middleLength axes] := by
    intro length member
    simpa using (mem_coverage_lengths axes length).mp ((mem_reached axes length).mp member).1
  exact ((nodup_distinct _).filter _).length_le_of_subset included

section

variable {axes : Axes} {coverage : List (List Word)}
  (lengths : coverage.map List.length = coverageLengths axes)

include lengths

theorem coverage_distinct (left right : List Word) (first : left ∈ coverage)
    (second : right ∈ coverage) (same : left.length = right.length) : left = right := by
  have nodup : (coverage.map List.length).Nodup := by
    rw [lengths]
    exact nodup_distinct _
  exact List.inj_on_of_nodup_map nodup first second same

theorem coverage_takes_few :
    ((contested axes).filter fun input => input ∈ coverage).length ≤
      (reachedLengths axes).length := by
  have nodup : (((contested axes).filter fun input => input ∈ coverage).map List.length).Nodup := by
    refine List.Nodup.map_on (fun left first right second same => ?_)
      ((nodup_contested axes).filter _)
    simp only [List.mem_filter, decide_eq_true_eq] at first second
    exact coverage_distinct lengths left right first.2 second.2 same
  have reached : ((contested axes).filter fun input => input ∈ coverage).map List.length ⊆
      reachedLengths axes := by
    intro length member
    obtain ⟨input, taken, rfl⟩ := List.mem_map.mp member
    simp only [List.mem_filter, decide_eq_true_eq] at taken
    refine (mem_reached axes _).mpr ⟨?_, input, taken.1, rfl⟩
    rw [← lengths]
    exact List.mem_map_of_mem taken.2
  have few := nodup.length_le_of_subset reached
  rwa [List.length_map] at few

/-- Where coverage inputs and four others take all contested inputs, the search overlooks none. -/
theorem admitted_of_taken (enough : SearchSuffices axes) (others : List (List Word))
    (few : others.length ≤ typicalCount)
    (taken : ∀ input ∈ contested axes, input ∈ coverage ∨ input ∈ others) (input : List Word)
    (admitted : axes.Admits input) :
    input ∈ searched axes ++ adversarialInputs axes ∨ input ∈ boundaryInputs axes := by
  rcases enough with many | all
  · have included : contested axes ⊆
        ((contested axes).filter fun input => input ∈ coverage) ++ others := by
      intro other member
      rcases taken other member with covered | extra
      · exact List.mem_append_left _ (List.mem_filter.mpr ⟨member, by simpa using covered⟩)
      · exact List.mem_append_right _ extra
    have count := (nodup_contested axes).length_le_of_subset included
    have covered := coverage_takes_few lengths
    rw [List.length_append] at count
    omega
  · exact all input admitted

/-- Boundary inputs that are coverage inputs leave nothing else: least and greatest elements agree
or there are none, and a coverage input has the greatest length only if that is at most one. -/
theorem admitted_of_boundary_covered (valid : axes.Valid)
    (covered : ∀ input ∈ boundaryInputs axes, input ∈ coverage) (input : List Word)
    (admitted : axes.Admits input) : input ∈ boundaryInputs axes := by
  obtain ⟨⟨atLeast, atMost⟩, within⟩ := (valid.admits_iff input).mp admitted
  have extreme : input.length = axes.minLength ∨ input.length = axes.maxLength := by
    have greatest : axes.maxLength ∈ coverageLengths axes := by
      have longest := covered (List.replicate axes.maxLength axes.value.low)
        ((mem_boundary _ _).mpr ⟨axes.maxLength, .inr rfl, .inl rfl⟩)
      rw [← lengths]
      exact List.mem_map.mpr ⟨_, longest, List.length_replicate⟩
    have length := (mem_coverage_lengths axes _).mp greatest
    simp only [shortLength, middleLength] at length
    omega
  have flat : input.length = 0 ∨ axes.value.low = axes.value.high := by
    have least := covered (List.replicate input.length axes.value.low)
      ((mem_boundary _ _).mpr ⟨input.length, extreme, .inl rfl⟩)
    have greatest := covered (List.replicate input.length axes.value.high)
      ((mem_boundary _ _).mpr ⟨input.length, extreme, .inr rfl⟩)
    have same := coverage_distinct lengths _ _ least greatest (by simp)
    exact (List.replicate_inj.mp same).2
  have constant : input = List.replicate input.length axes.value.low := by
    refine List.eq_replicate_iff.mpr ⟨rfl, fun word member => ?_⟩
    rcases flat with empty | single
    · rw [List.eq_nil_of_length_eq_zero empty] at member
      cases member
    · exact Range.element_of_single single word (within word member)
  exact (mem_boundary _ _).mpr ⟨input.length, extreme, .inl constant⟩

end

section

variable (program : Program) (axes : Axes) (coverage typical : List (List Word))

theorem coverage_kept (nonempty : coverage ≠ []) :
    ∃ query ∈ unrepeated program axes coverage typical, query.tag = .coverage := by
  obtain ⟨first, others, rfl⟩ := List.exists_cons_of_ne_nil nonempty
  refine ⟨ask program .coverage first, ?_, rfl⟩
  rw [unrepeated, kept_iff]
  simp [proposed]

theorem boundary_lost
    (absent : ∀ query ∈ unrepeated program axes coverage typical,
      query.tag ≠ .boundary) :
    ∀ input ∈ boundaryInputs axes, input ∈ coverage := by
  intro input member
  rw [unrepeated, proposed, List.append_assoc] at absent
  have tagged : ∀ query ∈ (boundaryInputs axes).map (ask program .boundary),
      query.tag = .boundary := by simp [ask]
  have taken := group_lost _ _ _ _ tagged absent _ (List.mem_map_of_mem member)
  simpa [inputs, ask] using taken

theorem typical_lost
    (absent : ∀ query ∈ unrepeated program axes coverage typical,
      query.tag ≠ .typical) :
    ∀ input ∈ typical, input ∈ coverage ∨ input ∈ boundaryInputs axes := by
  intro input member
  have tagged : ∀ query ∈ typical.map (ask program .typical), query.tag = .typical := by
    simp [ask]
  have taken := group_lost _ _ _ _ tagged absent _ (List.mem_map_of_mem member)
  simpa [inputs, ask] using taken

theorem adversarial_lost
    (absent : ∀ query ∈ unrepeated program axes coverage typical,
      query.tag ≠ .adversarial) :
    ∀ input ∈ adversarialInputs axes,
      input ∈ coverage ∨ input ∈ boundaryInputs axes ∨ input ∈ typical := by
  intro input member
  rw [unrepeated, proposed, ← List.append_nil (_ ++ (adversarialInputs axes).map _)] at absent
  have tagged : ∀ query ∈ (adversarialInputs axes).map (ask program .adversarial),
      query.tag = .adversarial := by simp [ask]
  have taken := group_lost _ _ _ _ tagged absent _ (List.mem_map_of_mem member)
  simpa [inputs, ask, or_assoc] using taken

end

/-- The search has found all it tries taken, and four inputs beside those of coverage and boundary
take all that is contested. -/
structure Spent (axes : Axes) (coverage : List (List Word)) (queries : List Query) : Prop where
  taken : ∀ input ∈ searched axes, input ∈ inputs queries
  few : ∃ others : List (List Word), others.length ≤ typicalCount ∧
    ∀ input ∈ searched axes ++ adversarialInputs axes,
      input ∈ coverage ∨ input ∈ boundaryInputs axes ∨ input ∈ others

section

variable (program : Program) (axes : Axes) (coverage typical : List (List Word))

theorem tried_of_others (others : List (List Word))
    (searchTaken : ∀ input ∈ searched axes,
      input ∈ inputs (unrepeated program axes coverage typical) ∨ input ∈ others)
    (typicalTaken : ∀ input ∈ typical,
      input ∈ coverage ∨ input ∈ boundaryInputs axes ∨ input ∈ others)
    (adversarialTaken : ∀ input ∈ adversarialInputs axes,
      input ∈ coverage ∨ input ∈ boundaryInputs axes ∨ input ∈ others) :
    ∀ input ∈ searched axes ++ adversarialInputs axes,
      input ∈ coverage ∨ input ∈ boundaryInputs axes ∨ input ∈ others := by
  intro input member
  rcases List.mem_append.mp member with tried | adversarial
  · rcases searchTaken input tried with start | other
    · rcases (inputs_of_unrepeated program axes coverage typical input).mp start with
        covered | boundary | drawn | adversarial
      · exact .inl covered
      · exact .inr (.inl boundary)
      · exact typicalTaken input drawn
      · exact adversarialTaken input adversarial
    · exact .inr (.inr other)
  · exact adversarialTaken input adversarial

theorem spent_of_typical_lost
    (absent : ∀ query ∈ backfill program axes
      (unrepeated program axes coverage typical) .typical, query.tag ≠ .typical) :
    Spent axes coverage (unrepeated program axes coverage typical) := by
  obtain ⟨before, taken, -⟩ := tag_lost program axes _ .typical absent
  have typicalTaken := typical_lost program axes coverage typical before
  have few : (adversarialInputs axes).length ≤ typicalCount := by
    simp [adversarialInputs, typicalCount]
  refine ⟨taken, adversarialInputs axes, few, ?_⟩
  refine tried_of_others program axes coverage typical (adversarialInputs axes) ?_ ?_ ?_
  · exact fun input tried => .inl (taken input tried)
  · exact fun input drawn => (typicalTaken input drawn).imp_right .inl
  · exact fun input adversarial => .inr (.inr adversarial)

theorem spent_of_adversarial_lost (four : typical.length = typicalCount)
    (absent : ∀ query ∈ backfill program axes (backfill program axes
      (unrepeated program axes coverage typical) .typical) .adversarial,
      query.tag ≠ .adversarial) :
    Spent axes coverage (backfill program axes
      (unrepeated program axes coverage typical) .typical) := by
  obtain ⟨before, taken, -⟩ := tag_lost program axes _ .adversarial absent
  have adversarialTaken := adversarial_lost program axes coverage typical
    fun query member => before query (mem_backfill program axes _ .typical query member)
  refine ⟨taken, ?_⟩
  by_cases hasTypical : ∃ query ∈ unrepeated program axes coverage typical,
      query.tag = .typical
  · -- The four typical inputs are the others.
    rw [backfill_present program axes _ _ hasTypical] at taken
    refine ⟨typical, Nat.le_of_eq four, ?_⟩
    refine tried_of_others program axes coverage typical typical ?_ ?_ adversarialTaken
    · exact fun input tried => .inl (taken input tried)
    · exact fun input drawn => .inr (.inr drawn)
  · -- The typical inputs are taken as well, so only the input of their own search is another one.
    have lost : ∀ query ∈ unrepeated program axes coverage typical,
        query.tag ≠ .typical := fun query member same => hasTypical ⟨query, member, same⟩
    have typicalTaken (others : List (List Word)) (input : List Word) (drawn : input ∈ typical) :
        input ∈ coverage ∨ input ∈ boundaryInputs axes ∨ input ∈ others :=
      (typical_lost program axes coverage typical lost input drawn).imp_right .inl
    have allTaken (others : List (List Word)) (input : List Word)
        (adversarial : input ∈ adversarialInputs axes) :
        input ∈ coverage ∨ input ∈ boundaryInputs axes ∨ input ∈ others := by
      rcases adversarialTaken input adversarial with covered | boundary | drawn
      · exact .inl covered
      · exact .inr (.inl boundary)
      · exact typicalTaken others input drawn
    rcases backfill_absent program axes _ .typical lost with ⟨own, -, -, added⟩ | ⟨all, -⟩
    · rw [added] at taken
      refine ⟨[own], by simp [typicalCount], ?_⟩
      refine tried_of_others program axes coverage typical [own] (fun input tried => ?_)
        (typicalTaken [own]) (allTaken [own])
      exact ((inputs_append _ _ _).mp (taken input tried)).imp_right List.mem_singleton.mpr
    · refine ⟨[], Nat.zero_le _, ?_⟩
      exact tried_of_others program axes coverage typical []
        (fun input tried => .inl (all input tried)) (typicalTaken []) (allTaken [])

end

/-- A search that suffices is spent only when no admitted input is free. -/
theorem tried_of_spent {axes : Axes} {coverage : List (List Word)} {queries : List Query}
    (lengths : coverage.map List.length = coverageLengths axes) (enough : SearchSuffices axes)
    (spent : Spent axes coverage queries) (input : List Word) (admitted : axes.Admits input) :
    input ∈ inputs queries ∨ input ∈ adversarialInputs axes ∨ input ∈ boundaryInputs axes := by
  obtain ⟨taken, others, few, spread⟩ := spent
  have contestedTaken : ∀ other ∈ contested axes, other ∈ coverage ∨ other ∈ others := by
    intro other member
    obtain ⟨tried, inner⟩ := (mem_contested axes other).mp member
    rcases spread other tried with covered | boundary | extra
    · exact .inl covered
    · exact absurd boundary inner
    · exact .inr extra
  rcases admitted_of_taken lengths enough others few contestedTaken input admitted with
    tried | boundary
  · exact (List.mem_append.mp tried).imp (taken input) .inl
  · exact .inr (.inr boundary)

section

variable (program : Program) {axes : Axes} {coverage : List (List Word)}
  (typical : List (List Word)) (lengths : coverage.map List.length = coverageLengths axes)

include lengths

theorem coverage_kept_of_lengths :
    ∃ query ∈ unrepeated program axes coverage typical, query.tag = .coverage := by
  refine coverage_kept program axes coverage typical ?_
  rintro rfl
  have least := (mem_coverage_lengths axes axes.minLength).mpr (.inl rfl)
  rw [← lengths] at least
  cases least

theorem completed_in_stages :
    completed program axes coverage typical =
      backfill program axes (backfill program axes (backfill program axes
        (unrepeated program axes coverage typical) .boundary) .typical) .adversarial := by
  change backfill program axes (backfill program axes (backfill program axes (backfill program
    axes (unrepeated program axes coverage typical) .coverage) .boundary) .typical)
    .adversarial = _
  rw [backfill_present program axes _ .coverage (coverage_kept_of_lengths program typical lengths)]

theorem inputs_of_completed (input : List Word)
    (known : input ∈ inputs (unrepeated program axes coverage typical)) :
    input ∈ inputs (completed program axes coverage typical) := by
  rw [completed_in_stages program typical lengths]
  exact inputs_of_backfill _ _ _ _ _
    (inputs_of_backfill _ _ _ _ _ (inputs_of_backfill _ _ _ _ _ known))

/-- With a boundary query in place only the typical or the adversarial reason can be lost, and not
before its search is spent. -/
theorem spent_of_lost (four : typical.length = typicalCount)
    (hasBoundary : ∃ query ∈ unrepeated program axes coverage typical, query.tag = .boundary)
    (tag : QueryTag)
    (absent : ∀ query ∈ completed program axes coverage typical, query.tag ≠ tag) :
    ∃ queries, Spent axes coverage queries ∧
      ∀ other ∈ inputs queries, other ∈ inputs (completed program axes coverage typical) := by
  have stages := completed_in_stages program typical lengths
  rw [backfill_present program axes _ .boundary hasBoundary] at stages
  have stays (query : Query) (member : query ∈ unrepeated program axes coverage typical) :
      query ∈ completed program axes coverage typical := by
    rw [stages]
    exact mem_backfill _ _ _ _ _ (mem_backfill _ _ _ _ _ member)
  cases tag with
  | coverage =>
      obtain ⟨query, member, same⟩ := coverage_kept_of_lengths program typical lengths
      exact absurd same (absent query (stays query member))
  | boundary =>
      obtain ⟨query, member, same⟩ := hasBoundary
      exact absurd same (absent query (stays query member))
  | typical =>
      have lost : ∀ query ∈ backfill program axes
          (unrepeated program axes coverage typical) .typical, query.tag ≠ .typical := by
        intro query member
        refine absent query ?_
        rw [stages]
        exact mem_backfill _ _ _ _ _ member
      exact ⟨_, spent_of_typical_lost program axes coverage typical lost,
        inputs_of_completed program typical lengths⟩
  | adversarial =>
      rw [stages] at absent
      refine ⟨_, spent_of_adversarial_lost program axes coverage typical four absent, ?_⟩
      intro other known
      rw [stages]
      exact inputs_of_backfill _ _ _ _ _ known

end

theorem tags_kept_of_suffices (program : Program) (axes : Axes) (valid : axes.Valid)
    (enough : SearchSuffices axes) (coverage typical : List (List Word))
    (drawnCoverage : (coverageInputs axes).Yields coverage)
    (drawnTypical : (typicalInputs axes).Yields typical) :
    TagsKept axes (completed program axes coverage typical) := by
  intro tag absent input admitted
  have lengths := ((yields_coverage axes coverage).mp drawnCoverage).1
  have four := ((yields_typical valid typical).mp drawnTypical).1
  have onward := inputs_of_completed program typical lengths input
  rw [inputs_of_unrepeated] at onward
  by_cases hasBoundary : ∃ query ∈ unrepeated program axes coverage typical, query.tag = .boundary
  · obtain ⟨queries, spent, later⟩ :=
      spent_of_lost program typical lengths four hasBoundary tag absent
    rcases tried_of_spent lengths enough spent input admitted with taken | adversarial | boundary
    · exact later input taken
    · exact onward (.inr (.inr (.inr adversarial)))
    · exact onward (.inr (.inl boundary))
  · have covered := boundary_lost program axes coverage typical
      fun query member same => hasBoundary ⟨query, member, same⟩
    exact onward (.inr (.inl (admitted_of_boundary_covered lengths valid covered input admitted)))

section

variable {axes : Axes} (valid : axes.Valid) (single : axes.value.low = axes.value.high)

include valid single

theorem candidate_of_single (attempt : Nat) (inside : attempt < lengthCount axes) :
    candidate axes attempt = List.replicate (axes.minLength + attempt) axes.value.low := by
  have ordered := valid.lengths_ordered
  rw [candidate]
  split
  · next empty =>
      have none : axes.minLength + attempt = 0 := by
        rw [lengthCount] at inside
        omega
      rw [none]
      rfl
  · refine List.eq_replicate_iff.mpr ⟨?_, fun word member => ?_⟩
    · rw [List.length_map, List.length_range, Nat.mod_eq_of_lt inside]
    · obtain ⟨index, -, rfl⟩ := List.mem_map.mp member
      exact Range.element_of_single single _ (axes.value.clamp_within (valid.ordered .value) _)

theorem searched_of_single (length : Nat)
    (inside : axes.minLength ≤ length ∧ length < axes.minLength + lengthCount axes)
    (early : length < axes.minLength + attempts) :
    List.replicate length axes.value.low ∈ searched axes := by
  refine List.mem_map.mpr ⟨length - axes.minLength, List.mem_range.mpr (by omega), ?_⟩
  rw [candidate_of_single valid single _ (by omega), Nat.add_sub_cancel' inside.1]

theorem many_contested_of_single (long : attempts < lengthCount axes) :
    8 ≤ (contested axes).length := by
  have count : lengthCount axes = axes.maxLength - axes.minLength + 1 := rfl
  have limit : attempts = 32 := rfl
  have nodup : ((List.range 8).map fun step =>
      List.replicate (axes.minLength + 1 + step) axes.value.low).Nodup := by
    refine List.Nodup.map_on (fun left _ right _ same => ?_) List.nodup_range
    have lengths := (List.replicate_inj.mp same).1
    omega
  have included : ((List.range 8).map fun step =>
      List.replicate (axes.minLength + 1 + step) axes.value.low) ⊆ contested axes := by
    intro input member
    obtain ⟨step, inRange, rfl⟩ := List.mem_map.mp member
    have early := List.mem_range.mp inRange
    refine (mem_contested _ _).mpr ⟨List.mem_append_left _ ?_, fun boundary => ?_⟩
    · exact searched_of_single valid single _ (by omega) (by omega)
    · obtain ⟨length, extreme, shape⟩ := (mem_boundary _ _).mp boundary
      have same : axes.minLength + 1 + step = length := by
        rcases shape with shape | shape <;> exact (List.replicate_inj.mp shape).1
      omega
  have many := nodup.length_le_of_subset included
  rwa [List.length_map, List.length_range] at many

/-- With one admitted element the search finds all inputs, or more lengths than can be taken. -/
theorem search_suffices_of_single : SearchSuffices axes := by
  have ordered := valid.lengths_ordered
  have count : lengthCount axes = axes.maxLength - axes.minLength + 1 := rfl
  by_cases short : lengthCount axes ≤ attempts
  · refine .inr fun input admitted => .inl (List.mem_append_left _ ?_)
    obtain ⟨bounds, within⟩ := (valid.admits_iff input).mp admitted
    have constant : input = List.replicate input.length axes.value.low :=
      List.eq_replicate_iff.mpr
        ⟨rfl, fun word member => Range.element_of_single single word (within word member)⟩
    rw [constant]
    exact searched_of_single valid single _ (by omega) (by omega)
  · left
    have many := many_contested_of_single valid single (Nat.lt_of_not_le short)
    have few := reached_few axes
    have four : typicalCount = 4 := rfl
    omega

end

def spare (axes : Axes) (free : List Word) (length : Nat) : List Word :=
  if List.replicate length axes.value.low = free then List.replicate length axes.value.high
  else List.replicate length axes.value.low

/-- A contested input of the length, if there is one. -/
def rival (axes : Axes) (free : List Word) (length : Nat) : List Word :=
  ((contested axes).find? fun input => input.length = length).getD (spare axes free length)

/-- Coverage inputs that take as many contested inputs as they can. -/
def rivals (axes : Axes) (free : List Word) : List (List Word) :=
  (coverageLengths axes).map (rival axes free)

def remaining (axes : Axes) (free : List Word) : List (List Word) :=
  (contested axes).filter fun input => input ∉ rivals axes free

/-- Typical inputs that take the rest. -/
def takers (axes : Axes) (free : List Word) : List (List Word) :=
  remaining axes free ++ List.replicate (typicalCount - (remaining axes free).length)
    (List.replicate axes.minLength axes.value.low)

theorem length_of_spare (axes : Axes) (free : List Word) (length : Nat) :
    (spare axes free length).length = length := by
  rw [spare]
  split <;> exact List.length_replicate

theorem rival_cases (axes : Axes) (free : List Word) (length : Nat) :
    rival axes free length ∈ contested axes ∧ (rival axes free length).length = length ∨
      (∀ input ∈ contested axes, input.length ≠ length) ∧
        rival axes free length = spare axes free length := by
  rw [rival]
  cases found : (contested axes).find? fun input => input.length = length with
  | some input =>
      have same : input.length = length := by simpa using List.find?_some found
      exact .inl ⟨List.mem_of_find?_eq_some found, same⟩
  | none => exact .inr ⟨by simpa using found, rfl⟩

theorem length_of_rival (axes : Axes) (free : List Word) (length : Nat) :
    (rival axes free length).length = length := by
  rcases rival_cases axes free length with ⟨-, same⟩ | ⟨-, same⟩
  · exact same
  · rw [same, length_of_spare]

theorem remaining_few (axes : Axes) (free : List Word)
    (few : (contested axes).length ≤ (reachedLengths axes).length + typicalCount) :
    (remaining axes free).length ≤ typicalCount := by
  have nodup : ((reachedLengths axes).map (rival axes free)).Nodup := by
    refine List.Nodup.map_on (fun left _ right _ same => ?_) ((nodup_distinct _).filter _)
    rw [← length_of_rival axes free left, same, length_of_rival]
  have included : (reachedLengths axes).map (rival axes free) ⊆
      (contested axes).filter fun input => input ∈ rivals axes free := by
    intro input member
    obtain ⟨length, reached, rfl⟩ := List.mem_map.mp member
    obtain ⟨covered, other, claimed, same⟩ := (mem_reached axes length).mp reached
    refine List.mem_filter.mpr ⟨?_, ?_⟩
    · rcases rival_cases axes free length with ⟨found, -⟩ | ⟨none, -⟩
      · exact found
      · exact absurd same (none other claimed)
    · rw [decide_eq_true_eq]
      exact List.mem_map_of_mem covered
  have taken := nodup.length_le_of_subset included
  have parts := (contested axes).length_eq_length_filter_add fun input =>
    decide (input ∈ rivals axes free)
  have rest : remaining axes free =
      (contested axes).filter fun input => !decide (input ∈ rivals axes free) := by
    simp [remaining]
  rw [List.length_map] at taken
  rw [rest]
  omega

theorem contested_admitted {axes : Axes} (valid : axes.Valid) (input : List Word)
    (member : input ∈ contested axes) : axes.Admits input := by
  obtain ⟨tried, -⟩ := (mem_contested axes input).mp member
  rcases List.mem_append.mp tried with searched | adversarial
  · exact searched_admitted valid input searched
  · exact adversarial_admitted valid input adversarial

section

variable {axes : Axes} (valid : axes.Valid) (free : List Word)

include valid

theorem rivals_drawn : (coverageInputs axes).Yields (rivals axes free) := by
  have values : axes.value.low ≤ axes.value.high := valid.ordered .value
  rw [yields_coverage, rivals, List.map_map]
  constructor
  · calc (coverageLengths axes).map (List.length ∘ rival axes free)
      _ = (coverageLengths axes).map id :=
          List.map_congr_left fun length _ => by rw [Function.comp_apply, length_of_rival, id]
      _ = coverageLengths axes := List.map_id _
  · intro input member
    obtain ⟨length, -, rfl⟩ := List.mem_map.mp member
    rcases rival_cases axes free length with ⟨claimed, -⟩ | ⟨-, same⟩
    · exact (contested_admitted valid _ claimed).within
    · rw [same, spare]
      intro word element
      split at element
      · rw [List.eq_of_mem_replicate element]
        exact ⟨values, Int64.le_refl _⟩
      · rw [List.eq_of_mem_replicate element]
        exact ⟨Int64.le_refl _, values⟩

theorem takers_drawn
    (few : (contested axes).length ≤ (reachedLengths axes).length + typicalCount) :
    (typicalInputs axes).Yields (takers axes free) := by
  have rest := remaining_few axes free few
  rw [yields_typical valid, takers, List.length_append, List.length_replicate]
  refine ⟨by omega, fun input member => ?_⟩
  rcases List.mem_append.mp member with left | filler
  · exact contested_admitted valid input (List.mem_filter.mp left).1
  · rw [List.eq_of_mem_replicate filler]
    exact boundary_admitted valid _ ((mem_boundary _ _).mpr ⟨_, .inl rfl, .inl rfl⟩)

variable (admitted : axes.Admits free)
  (untried : free ∉ searched axes ++ adversarialInputs axes) (inner : free ∉ boundaryInputs axes)

include admitted untried inner

theorem free_of_rivals (several : axes.value.low ≠ axes.value.high) :
    free ∉ rivals axes free := by
  intro member
  obtain ⟨length, -, same⟩ := List.mem_map.mp member
  rcases rival_cases axes free length with ⟨claimed, -⟩ | ⟨-, spared⟩
  · rw [same] at claimed
    exact untried ((mem_contested axes free).mp claimed).1
  · rw [same, spare] at spared
    split at spared
    · next least =>
        rcases (List.replicate_inj.mp (least.trans spared)).2 with empty | equal
        · -- The empty input is admitted only where it is a boundary input.
          have none : free = [] := by rw [← least, empty, List.replicate_zero]
          have shortest : axes.minLength = 0 := by
            have bounds := ((valid.admits_iff free).mp admitted).1
            rw [none, List.length_nil] at bounds
            omega
          exact inner ((mem_boundary axes free).mpr
            ⟨axes.minLength, .inl rfl, .inl (by rw [none, shortest, List.replicate_zero])⟩)
        · exact several equal
    · next other => exact other spared.symm

omit valid admitted in
theorem free_of_takers : free ∉ takers axes free := by
  intro member
  rcases List.mem_append.mp member with left | filler
  · exact untried ((mem_contested axes free).mp (List.mem_filter.mp left).1).1
  · exact inner ((mem_boundary axes free).mpr
      ⟨axes.minLength, .inl rfl, .inl (List.eq_of_mem_replicate filler)⟩)

end

theorem tried_taken (axes : Axes) (free input : List Word)
    (tried : input ∈ searched axes ++ adversarialInputs axes) :
    input ∈ rivals axes free ∨ input ∈ boundaryInputs axes ∨ input ∈ takers axes free := by
  by_cases boundary : input ∈ boundaryInputs axes
  · exact .inr (.inl boundary)
  · have claimed := (mem_contested axes input).mpr ⟨tried, boundary⟩
    by_cases covered : input ∈ rivals axes free
    · exact .inl covered
    · refine .inr (.inr (List.mem_append_left _ (List.mem_filter.mpr ⟨claimed, ?_⟩)))
      simpa using covered

/-- Where all that is tried is taken by queries before the adversarial ones, those lose their reason
and no search finds an input. -/
theorem adversarial_lost_of_taken (program : Program) (axes : Axes)
    (coverage typical : List (List Word))
    (taken : ∀ input ∈ searched axes ++ adversarialInputs axes,
      input ∈ coverage ∨ input ∈ boundaryInputs axes ∨ input ∈ typical) :
    completed program axes coverage typical = unrepeated program axes coverage typical ∧
      ∀ query ∈ unrepeated program axes coverage typical, query.tag ≠ .adversarial := by
  have searchedTaken : ∀ input ∈ searched axes,
      input ∈ inputs (unrepeated program axes coverage typical) := by
    intro input member
    rw [inputs_of_unrepeated]
    rcases taken input (List.mem_append_left _ member) with covered | boundary | drawn
    · exact .inl covered
    · exact .inr (.inl boundary)
    · exact .inr (.inr (.inl drawn))
  constructor
  · simp only [completed, QueryTag.all, List.foldl_cons, List.foldl_nil,
      backfill_taken program axes _ _ searchedTaken]
  · intro query member tagged
    rw [unrepeated, kept_iff] at member
    have own : query.input ∈ adversarialInputs axes := by
      have among := List.mem_of_find?_eq_some member
      simp only [proposed, List.mem_append, List.mem_map] at among
      rcases among with ((⟨_, _, rfl⟩ | ⟨_, _, rfl⟩) | ⟨_, _, rfl⟩) | ⟨input, adversarial, rfl⟩
      · cases tagged
      · cases tagged
      · cases tagged
      · exact adversarial
    have known := taken query.input (List.mem_append_right _ own)
    have earlier := found_in_front _ _ query (by simpa [inputs, ask, or_assoc] using known) member
    simp only [List.mem_append, List.mem_map] at earlier
    rcases earlier with (⟨_, _, rfl⟩ | ⟨_, _, rfl⟩) | ⟨_, _, rfl⟩
    · cases tagged
    · cases tagged
    · cases tagged

theorem search_suffices_of_tags_kept (program : Program) (axes : Axes) (valid : axes.Valid)
    (kept : ∀ queries, (generate program axes).Yields queries → TagsKept axes queries) :
    SearchSuffices axes := by
  by_contra insufficient
  obtain ⟨few, overlooked⟩ := not_or.mp insufficient
  push Not at overlooked
  obtain ⟨free, admitted, untried, inner⟩ := overlooked
  have several : axes.value.low ≠ axes.value.high :=
    fun single => insufficient (search_suffices_of_single valid single)
  have drawn : (generate program axes).Yields
      (completed program axes (rivals axes free) (takers axes free)) :=
    (yields_generate program axes _).mpr ⟨rivals axes free, takers axes free,
      rivals_drawn valid free, takers_drawn valid free (Nat.le_of_not_lt few), rfl⟩
  obtain ⟨same, lost⟩ := adversarial_lost_of_taken program axes (rivals axes free)
    (takers axes free) fun input tried => tried_taken axes free input tried
  have tags := kept _ drawn
  rw [same] at tags
  rcases (inputs_of_unrepeated _ _ _ _ _).mp (tags .adversarial lost free admitted) with
    covered | boundary | typical | adversarial
  · exact free_of_rivals valid free admitted untried inner several covered
  · exact inner boundary
  · exact free_of_takers free untried inner typical
  · exact untried (List.mem_append_right _ adversarial)

/-- A reason goes without a query only where no admitted input is free, whatever state the generator
starts from, provided that the search suffices for the axes; and for other axes some answers to the
draws lose a reason while an input is free. -/
theorem tags_kept_iff (program : Program) (axes : Axes) (passed : axes.check = none) :
    (SearchSuffices axes →
        ∀ twister, TagsKept axes (Twister.run (generate program axes) twister).1) ∧
      ((∀ queries, (generate program axes).Yields queries → TagsKept axes queries) ↔
        SearchSuffices axes) := by
  have valid := (Axes.check_none_iff axes).mp passed
  have kept (enough : SearchSuffices axes) (queries : List Query)
      (drawn : (generate program axes).Yields queries) : TagsKept axes queries := by
    obtain ⟨coverage, typical, drawnCoverage, drawnTypical, rfl⟩ :=
      (yields_generate program axes queries).mp drawn
    exact tags_kept_of_suffices program axes valid enough coverage typical drawnCoverage
      drawnTypical
  refine ⟨fun enough twister => kept enough _ ?_,
    search_suffices_of_tags_kept program axes valid, kept⟩
  exact Twister.run_yields _ (answerable_generate program valid) twister

/-- The standard axes leave the search far more inputs than can be taken. -/
theorem tags_kept_standard :
    Axes.standard.check = none ∧ SearchSuffices Axes.standard ∧
      ∀ twister, TagsKept Axes.standard
        (Twister.run (generate ⟨[.halt], 64, .error, .direct, by simp, by decide⟩ Axes.standard)
          twister).1 := by
  have passed : Axes.standard.check = none := by decide +kernel
  have enough : SearchSuffices Axes.standard := .inl (by decide +kernel)
  exact ⟨passed, enough, (tags_kept_iff _ Axes.standard passed).1 enough⟩

def fourValues : Axes := { Axes.standard with value := ⟨0, 3⟩, listLength := ⟨0, 1⟩ }

/-- Of the four values the search tries only two. -/
example (program : Program) :
    ∃ queries, (generate program fourValues).Yields queries ∧ ¬TagsKept fourValues queries := by
  have valid := (Axes.check_none_iff fourValues).mp (by decide +kernel)
  by_contra none
  push Not at none
  rcases search_suffices_of_tags_kept program fourValues valid none with many | all
  · exact absurd many (by decide +kernel)
  · have admitted : fourValues.Admits [2] := by
      refine ⟨by decide, by decide, fun word member => ?_⟩
      rw [List.mem_singleton.mp member]
      decide
    exact absurd (all [2] admitted) (by decide +kernel)

end StackMachine.Sample.Query

import Mathlib.Data.List.Induction
import StackMachine.Proofs.Random.Twister
import StackMachine.Proofs.Sample.Axes
import StackMachine.Sample.Query

/-!
# What query generation can come to

The random inputs are any coverage inputs of the right lengths and any four inputs the axes admit;
the rest of the queries is determined by them. Of several queries with one input the first is kept,
and the search for a missing reason either adds one query or has found every candidate taken.
-/

namespace StackMachine.Sample

set_option autoImplicit false

open StackMachine.Random

namespace Query

theorem distinct_append (lengths : List Nat) (length : Nat) :
    distinct (lengths ++ [length]) =
      if length ∈ distinct lengths then distinct lengths else distinct lengths ++ [length] := by
  rw [distinct, List.foldl_append, ← distinct]
  rfl

theorem mem_distinct (lengths : List Nat) (length : Nat) :
    length ∈ distinct lengths ↔ length ∈ lengths := by
  induction lengths using List.reverseRecOn with
  | nil => rfl
  | append_singleton front last ih =>
      rw [distinct_append]
      split
      · next member =>
          rw [List.mem_append, List.mem_singleton, ih]
          constructor
          · exact .inl
          · rintro (earlier | rfl)
            · exact earlier
            · exact ih.mp member
      · rw [List.mem_append, List.mem_append, ih]

theorem nodup_distinct (lengths : List Nat) : (distinct lengths).Nodup := by
  induction lengths using List.reverseRecOn with
  | nil => exact List.nodup_nil
  | append_singleton front last ih =>
      rw [distinct_append]
      split
      · exact ih
      · next fresh =>
          refine List.nodup_append.mpr ⟨ih, by simp, fun earlier member => ?_⟩
          rintro other (single : other ∈ [last]) rfl
          exact fresh (List.mem_singleton.mp single ▸ member)

def inputs (queries : List Query) : List (List Word) := queries.map Query.input

theorem any_input_iff (queries : List Query) (input : List Word) :
    queries.any (·.input == input) = true ↔ input ∈ inputs queries := by
  simp [inputs]

theorem distinct_inputs_append (queries : List Query) (query : Query) :
    (query.input ∈ inputs (distinctInputs queries) ∧
        distinctInputs (queries ++ [query]) = distinctInputs queries) ∨
      (query.input ∉ inputs (distinctInputs queries) ∧
        distinctInputs (queries ++ [query]) = distinctInputs queries ++ [query]) := by
  have folded : distinctInputs (queries ++ [query]) =
      if (distinctInputs queries).any (·.input == query.input) then distinctInputs queries
      else distinctInputs queries ++ [query] := by
    rw [distinctInputs, List.foldl_append, ← distinctInputs]
    rfl
  by_cases known : query.input ∈ inputs (distinctInputs queries)
  · exact .inl ⟨known, by rw [folded, if_pos ((any_input_iff _ _).mpr known)]⟩
  · exact .inr ⟨known, by rw [folded, if_neg (mt (any_input_iff _ _).mp known)]⟩

theorem inputs_append (queries : List Query) (query : Query) (input : List Word) :
    input ∈ inputs (queries ++ [query]) ↔ input ∈ inputs queries ∨ input = query.input := by
  simp [inputs]

theorem inputs_of_distinct (queries : List Query) (input : List Word) :
    input ∈ inputs (distinctInputs queries) ↔ input ∈ inputs queries := by
  induction queries using List.reverseRecOn with
  | nil => rfl
  | append_singleton front last ih =>
      rw [inputs_append]
      rcases distinct_inputs_append front last with ⟨known, same⟩ | ⟨-, grown⟩
      · rw [same, ih]
        constructor
        · exact .inl
        · rintro (earlier | rfl)
          · exact earlier
          · exact ih.mp known
      · rw [grown, inputs_append, ih]

theorem kept_iff (queries : List Query) (query : Query) :
    query ∈ distinctInputs queries ↔
      queries.find? (fun other => other.input == query.input) = some query := by
  induction queries using List.reverseRecOn with
  | nil => simp [distinctInputs]
  | append_singleton front last ih =>
      rw [List.find?_append]
      by_cases known : query.input ∈ inputs front
      · obtain ⟨first, found⟩ :
            ∃ first, front.find? (fun other => other.input == query.input) = some first := by
          rw [← Option.isSome_iff_exists, List.find?_isSome]
          simpa [inputs] using known
        rw [found, Option.some_or, ← found, ← ih]
        rcases distinct_inputs_append front last with ⟨-, same⟩ | ⟨fresh, grown⟩
        · rw [same]
        · rw [grown, List.mem_append, List.mem_singleton]
          refine ⟨fun either => either.resolve_right ?_, .inl⟩
          rintro rfl
          exact fresh ((inputs_of_distinct _ _).mpr known)
      · have missing : front.find? (fun other => other.input == query.input) = none := by
          rw [List.find?_eq_none]
          simpa [inputs] using known
        have absent : query ∉ distinctInputs front := by
          rw [ih, missing]
          simp
        rw [missing, Option.none_or, List.find?_singleton]
        rcases distinct_inputs_append front last with ⟨taken, same⟩ | ⟨-, grown⟩
        · have other : ¬(last.input == query.input) = true := by
            rw [beq_iff_eq]
            rintro shared
            exact known (shared ▸ (inputs_of_distinct _ _).mp taken)
          rw [same, if_neg other]
          simp [absent]
        · rw [grown, List.mem_append, List.mem_singleton]
          constructor
          · intro either
            obtain rfl := either.resolve_left absent
            simp
          · intro chosen
            split at chosen
            · exact .inr (Option.some.inj chosen).symm
            · cases chosen

theorem found_in_front (front back : List Query) (query : Query)
    (known : query.input ∈ inputs front)
    (found : (front ++ back).find? (fun other => other.input == query.input) = some query) :
    query ∈ front := by
  obtain ⟨first, earlier⟩ :
      ∃ first, front.find? (fun other => other.input == query.input) = some first := by
    rw [← Option.isSome_iff_exists, List.find?_isSome]
    simpa [inputs] using known
  rw [List.find?_append, earlier, Option.some_or] at found
  rw [← Option.some.inj found]
  exact List.mem_of_find?_eq_some earlier

/-- A group of queries that loses its reason has had all its inputs taken before. -/
theorem group_lost (front group back : List Query) (tag : QueryTag)
    (tagged : ∀ query ∈ group, query.tag = tag)
    (absent : ∀ query ∈ distinctInputs (front ++ group ++ back), query.tag ≠ tag) :
    ∀ query ∈ group, query.input ∈ inputs front := by
  intro query member
  by_contra fresh
  have missing : front.find? (fun other => other.input == query.input) = none := by
    rw [List.find?_eq_none]
    simpa [inputs] using fresh
  obtain ⟨first, found⟩ :
      ∃ first, group.find? (fun other => other.input == query.input) = some first := by
    rw [← Option.isSome_iff_exists, List.find?_isSome]
    exact ⟨query, member, by simp⟩
  have same : first.input = query.input := by simpa using List.find?_some found
  have kept : first ∈ distinctInputs (front ++ group ++ back) := by
    rw [kept_iff, List.append_assoc, List.find?_append, List.find?_append, same, missing,
      Option.none_or, found, Option.some_or]
  exact absent first kept (tagged first (List.mem_of_find?_eq_some found))

theorem yields_random_input (axes : Axes) (length : Nat) (input : List Word) :
    (randomInput axes length).Yields input ↔
      input.length = length ∧ ∀ word ∈ input, axes.value.low ≤ word ∧ word ≤ axes.value.high :=
  Draw.yields_words _ _ length input

theorem yields_coverage (axes : Axes) (coverage : List (List Word)) :
    (coverageInputs axes).Yields coverage ↔
      coverage.map List.length = coverageLengths axes ∧
        ∀ input ∈ coverage, ∀ word ∈ input, axes.value.low ≤ word ∧ word ≤ axes.value.high := by
  rw [coverageInputs, Draw.yields_sequence, List.forall₂_map_left_iff]
  simp only [yields_random_input]
  generalize coverageLengths axes = lengths
  induction lengths generalizing coverage with
  | nil => cases coverage <;> simp
  | cons length lengths ih =>
      cases coverage with
      | nil => simp
      | cons input coverage =>
          rw [List.forall₂_cons, ih coverage, List.map_cons, List.cons.injEq, List.forall_mem_cons]
          exact and_and_and_comm

theorem yields_typical_input {axes : Axes} (valid : axes.Valid) (input : List Word) :
    (typicalInput axes).Yields input ↔ axes.Admits input := by
  simp only [typicalInput, Draw.yields_bind, Draw.yields_word, yields_random_input,
    valid.admits_iff]
  constructor
  · rintro ⟨word, within, length, elements⟩
    rw [length]
    exact ⟨valid.drawn_length word within, elements⟩
  · rintro ⟨bounds, elements⟩
    obtain ⟨word, within, length⟩ := valid.length_drawn input.length bounds
    exact ⟨word, within, length.symm, elements⟩

theorem yields_typical {axes : Axes} (valid : axes.Valid) (typical : List (List Word)) :
    (typicalInputs axes).Yields typical ↔
      typical.length = typicalCount ∧ ∀ input ∈ typical, axes.Admits input := by
  rw [typicalInputs, Draw.yields_sequence]
  generalize typicalCount = count
  induction count generalizing typical with
  | zero => cases typical <;> simp
  | succ count ih =>
      cases typical with
      | nil => simp [List.replicate_succ]
      | cons input typical =>
          rw [List.replicate_succ, List.forall₂_cons, ih typical, yields_typical_input valid,
            List.length_cons, Nat.succ_inj, List.forall_mem_cons]
          exact and_left_comm

/-- The queries before repeated inputs are dropped, for these random inputs. -/
def proposed (program : Program) (axes : Axes) (coverage typical : List (List Word)) :
    List Query :=
  coverage.map (ask program .coverage) ++ (boundaryInputs axes).map (ask program .boundary) ++
    typical.map (ask program .typical) ++ (adversarialInputs axes).map (ask program .adversarial)

/-- The queries before the search for missing reasons. -/
def unrepeated (program : Program) (axes : Axes) (coverage typical : List (List Word)) :
    List Query :=
  distinctInputs (proposed program axes coverage typical)

def completed (program : Program) (axes : Axes) (coverage typical : List (List Word)) :
    List Query :=
  QueryTag.all.foldl (backfill program axes) (unrepeated program axes coverage typical)

theorem inputs_of_unrepeated (program : Program) (axes : Axes)
    (coverage typical : List (List Word)) (input : List Word) :
    input ∈ inputs (unrepeated program axes coverage typical) ↔
      input ∈ coverage ∨ input ∈ boundaryInputs axes ∨ input ∈ typical ∨
        input ∈ adversarialInputs axes := by
  rw [unrepeated, inputs_of_distinct]
  simp [inputs, proposed, ask]

theorem yields_generate (program : Program) (axes : Axes) (queries : List Query) :
    (generate program axes).Yields queries ↔
      ∃ coverage typical, (coverageInputs axes).Yields coverage ∧
        (typicalInputs axes).Yields typical ∧
          queries = completed program axes coverage typical := by
  simp only [generate, proposals, Draw.yields_bind, Draw.yields_pure]
  constructor
  · rintro ⟨_, ⟨coverage, first, typical, second, rfl⟩, rfl⟩
    exact ⟨coverage, typical, first, second, rfl⟩
  · rintro ⟨coverage, typical, first, second, rfl⟩
    exact ⟨_, ⟨coverage, first, typical, second, rfl⟩, rfl⟩

theorem answerable_generate (program : Program) {axes : Axes} (valid : axes.Valid) :
    (generate program axes).Answerable := by
  have values : axes.value.low ≤ axes.value.high := valid.ordered .value
  have lengths : axes.listLength.low ≤ axes.listLength.high := valid.ordered .listLength
  have input (length : Nat) : (randomInput axes length).Answerable :=
    Draw.answerable_words _ _ length values
  have coverage : (coverageInputs axes).Answerable := by
    refine Draw.answerable_sequence _ fun draw member => ?_
    obtain ⟨length, -, rfl⟩ := List.mem_map.mp member
    exact input length
  have typical : (typicalInputs axes).Answerable := by
    refine Draw.answerable_sequence _ fun draw member => ?_
    rw [List.eq_of_mem_replicate member]
    exact Draw.answerable_bind _ _ (Draw.answerable_word _ _ lengths) fun word _ => input _
  have proposals : (proposals program axes).Answerable := by
    refine Draw.answerable_bind _ _ coverage fun first _ => ?_
    exact Draw.answerable_bind _ _ typical fun second _ => .done _
  exact Draw.answerable_bind _ _ proposals fun queries _ => .done _

/-- The inputs that a search tries. -/
def searched (axes : Axes) : List (List Word) := (List.range attempts).map (candidate axes)

theorem mem_coverage_lengths (axes : Axes) (length : Nat) :
    length ∈ coverageLengths axes ↔
      length = axes.minLength ∨ length = shortLength axes ∨ length = middleLength axes := by
  simp [coverageLengths, mem_distinct]

theorem mem_boundary (axes : Axes) (input : List Word) :
    input ∈ boundaryInputs axes ↔
      ∃ length, (length = axes.minLength ∨ length = axes.maxLength) ∧
        (input = List.replicate length axes.value.low ∨
          input = List.replicate length axes.value.high) := by
  simp [boundaryInputs, mem_distinct]

section

variable {axes : Axes} (valid : axes.Valid)

include valid

theorem coverage_length_bounds (length : Nat) (member : length ∈ coverageLengths axes) :
    axes.minLength ≤ length ∧ length ≤ axes.maxLength := by
  have ordered := valid.lengths_ordered
  rcases (mem_coverage_lengths axes length).mp member with rfl | rfl | rfl
  · omega
  · rw [shortLength]
    omega
  · rw [middleLength]
    omega

theorem boundary_admitted (input : List Word) (member : input ∈ boundaryInputs axes) :
    axes.Admits input := by
  have ordered := valid.lengths_ordered
  have values : axes.value.low ≤ axes.value.high := valid.ordered .value
  obtain ⟨length, extreme, shape⟩ := (mem_boundary axes input).mp member
  have bounds : axes.minLength ≤ length ∧ length ≤ axes.maxLength := by omega
  rcases shape with rfl | rfl
  · exact valid.admits_replicate length _ bounds ⟨Int64.le_refl _, values⟩
  · exact valid.admits_replicate length _ bounds ⟨values, Int64.le_refl _⟩

theorem adversarial_admitted (input : List Word) (member : input ∈ adversarialInputs axes) :
    axes.Admits input := by
  have values : axes.value.low ≤ axes.value.high := valid.ordered .value
  have bounds := coverage_length_bounds valid (shortLength axes)
    ((mem_coverage_lengths _ _).mpr (.inr (.inl rfl)))
  rw [adversarialInputs, List.mem_pair] at member
  rcases member with rfl | rfl
  · rw [valid.admits_iff, List.length_map, List.length_range]
    refine ⟨bounds, fun word element => ?_⟩
    obtain ⟨index, -, rfl⟩ := List.mem_map.mp element
    exact axes.value.clamp_within values _
  · exact valid.admits_replicate _ _ bounds (axes.value.clamp_within values _)

theorem searched_admitted (input : List Word) (member : input ∈ searched axes) :
    axes.Admits input := by
  have values : axes.value.low ≤ axes.value.high := valid.ordered .value
  have ordered := valid.lengths_ordered
  obtain ⟨attempt, -, rfl⟩ := List.mem_map.mp member
  rw [valid.admits_iff, candidate]
  split
  · next empty => exact ⟨⟨by simp; omega, by simp⟩, by simp⟩
  · rw [List.length_map, List.length_range]
    have turn : attempt % lengthCount axes < lengthCount axes :=
      Nat.mod_lt _ (Nat.succ_pos _)
    have count : lengthCount axes = axes.maxLength - axes.minLength + 1 := rfl
    refine ⟨by omega, fun word element => ?_⟩
    obtain ⟨index, -, rfl⟩ := List.mem_map.mp element
    exact axes.value.clamp_within values _

end

theorem backfill_present (program : Program) (axes : Axes) (queries : List Query) (tag : QueryTag)
    (present : ∃ query ∈ queries, query.tag = tag) :
    backfill program axes queries tag = queries := by
  rw [backfill, if_pos (by simpa using present)]

/-- A search adds one query with a candidate for its input, or it has found all of them taken. -/
theorem backfill_absent (program : Program) (axes : Axes) (queries : List Query) (tag : QueryTag)
    (absent : ∀ query ∈ queries, query.tag ≠ tag) :
    (∃ input ∈ searched axes, input ∉ inputs queries ∧
        backfill program axes queries tag = queries ++ [ask program tag input]) ∨
      (∀ input ∈ searched axes, input ∈ inputs queries) ∧
        backfill program axes queries tag = queries := by
  let free (attempt : Nat) : Bool := queries.all (·.input != candidate axes attempt)
  have free_iff (attempt : Nat) :
      free attempt = true ↔ candidate axes attempt ∉ inputs queries := by
    simp [free, inputs]
  rw [backfill, if_neg (by simpa using absent)]
  simp only
  split
  · next attempt found =>
      refine .inl ⟨candidate axes attempt, ?_, ?_, rfl⟩
      · exact List.mem_map_of_mem (List.mem_of_find?_eq_some found)
      · exact (free_iff attempt).mp (List.find?_some (p := free) found)
  · next none =>
      refine .inr ⟨fun input member => ?_, rfl⟩
      obtain ⟨attempt, inRange, rfl⟩ := List.mem_map.mp member
      have taken : ¬free attempt = true := List.find?_eq_none.mp none attempt inRange
      rw [free_iff] at taken
      exact not_not.mp taken

theorem backfill_taken (program : Program) (axes : Axes) (queries : List Query) (tag : QueryTag)
    (taken : ∀ input ∈ searched axes, input ∈ inputs queries) :
    backfill program axes queries tag = queries := by
  by_cases present : ∃ query ∈ queries, query.tag = tag
  · exact backfill_present program axes queries tag present
  · have absent : ∀ query ∈ queries, query.tag ≠ tag :=
      fun query member same => present ⟨query, member, same⟩
    rcases backfill_absent program axes queries tag absent with ⟨input, tried, free, -⟩ | ⟨-, same⟩
    · exact absurd (taken input tried) free
    · exact same

theorem tag_lost (program : Program) (axes : Axes) (queries : List Query) (tag : QueryTag)
    (absent : ∀ query ∈ backfill program axes queries tag, query.tag ≠ tag) :
    (∀ query ∈ queries, query.tag ≠ tag) ∧ (∀ input ∈ searched axes, input ∈ inputs queries) ∧
      backfill program axes queries tag = queries := by
  have before : ∀ query ∈ queries, query.tag ≠ tag := by
    intro query member same
    rw [backfill_present program axes queries tag ⟨query, member, same⟩] at absent
    exact absent query member same
  rcases backfill_absent program axes queries tag before with ⟨input, -, -, added⟩ | ⟨taken, same⟩
  · rw [added] at absent
    exact absurd rfl (absent (ask program tag input) (by simp))
  · exact ⟨before, taken, same⟩

theorem mem_backfill (program : Program) (axes : Axes) (queries : List Query) (tag : QueryTag)
    (query : Query) (member : query ∈ queries) : query ∈ backfill program axes queries tag := by
  by_cases present : ∃ other ∈ queries, other.tag = tag
  · rwa [backfill_present program axes queries tag present]
  · have absent : ∀ other ∈ queries, other.tag ≠ tag :=
      fun other known same => present ⟨other, known, same⟩
    rcases backfill_absent program axes queries tag absent with ⟨input, -, -, added⟩ | ⟨-, same⟩
    · rw [added]
      exact List.mem_append_left _ member
    · rwa [same]

theorem inputs_of_backfill (program : Program) (axes : Axes) (queries : List Query)
    (tag : QueryTag) (input : List Word) (member : input ∈ inputs queries) :
    input ∈ inputs (backfill program axes queries tag) := by
  obtain ⟨query, known, rfl⟩ := List.mem_map.mp member
  exact List.mem_map_of_mem (mem_backfill program axes queries tag query known)

end Query

end StackMachine.Sample

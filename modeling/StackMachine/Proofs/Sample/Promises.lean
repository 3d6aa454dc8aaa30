import Mathlib.Algebra.GroupWithZero.Nat
import StackMachine.Proofs.Sample.Answers
import StackMachine.Proofs.Sample.Arithmetic

/-!
# What is promised of queries

Whatever the draws are, the queries are distinct, answered and few, the first covers the least
length, and no boundary or adversarial input is missing. Repeated inputs can take a query away from
a reason but never bring one, and a search gives a query only to a reason that has none; so no reason
has more queries than inputs were proposed for it.
-/

namespace StackMachine.Sample.Query

set_option autoImplicit false

open StackMachine.Random

structure Promised (program : Program) (axes : Axes) (queries : List Query) : Prop where
  distinct : (inputs queries).Nodup
  answered : ∀ query ∈ queries, query.output = program.evaluate query.input
  admitted : ∀ input ∈ inputs queries, axes.Admits input
  few : 1 ≤ queries.length ∧ queries.length ≤ 13
  first : ∃ query rest, queries = query :: rest ∧ query.tag = .coverage ∧
    query.input.length = axes.listLength.low.toInt
  boundary : ∀ length : Nat,
    (length : Int) = axes.listLength.low.toInt ∨ (length : Int) = axes.listLength.high.toInt →
      (inputs queries).count (List.replicate length axes.value.low) = 1 ∧
        (inputs queries).count (List.replicate length axes.value.high) = 1
  adversarial : ∀ input ∈ adversarialInputs axes, (inputs queries).count input = 1

/-- The number of inputs that are proposed for a reason, at most. -/
def share : QueryTag → Nat
  | .coverage => 3
  | .boundary => 4
  | .typical => 4
  | .adversarial => 2

def count (queries : List Query) (tag : QueryTag) : Nat := queries.countP (·.tag = tag)

theorem count_append (front back : List Query) (tag : QueryTag) :
    count (front ++ back) tag = count front tag + count back tag :=
  List.countP_append

theorem count_asked (program : Program) (asked tag : QueryTag) (inputs : List (List Word)) :
    count (inputs.map (ask program asked)) tag = if asked = tag then inputs.length else 0 := by
  rw [count, List.countP_map]
  split
  · next same => exact List.countP_eq_length.mpr fun input _ => decide_eq_true same
  · next other =>
      exact List.countP_eq_zero.mpr fun input _ same => other (of_decide_eq_true same)

theorem length_of_counts (queries : List Query) :
    queries.length = (QueryTag.all.map (count queries)).sum := by
  induction queries with
  | nil => rfl
  | cons query rest ih =>
      rw [List.length_cons, ih]
      rcases query with ⟨tag, input, output⟩
      cases tag <;> simp [QueryTag.all, count] <;> omega

theorem distinct_inputs_sublist (queries : List Query) :
    (distinctInputs queries).Sublist queries := by
  induction queries using List.reverseRecOn with
  | nil => exact List.Sublist.refl _
  | append_singleton front last ih =>
      rcases distinct_inputs_append front last with ⟨-, same⟩ | ⟨-, grown⟩
      · rw [same]
        exact ih.trans (List.sublist_append_left front [last])
      · rw [grown]
        exact ih.append (List.Sublist.refl _)

/-- No reason has more queries than its share. -/
def Shared (queries : List Query) : Prop := ∀ tag : QueryTag, count queries tag ≤ share tag

theorem shared_unrepeated (program : Program) (axes : Axes) (coverage typical : List (List Word))
    (lengths : coverage.map List.length = coverageLengths axes)
    (four : typical.length = typicalCount) :
    Shared (unrepeated program axes coverage typical) := by
  intro tag
  have few := coverage_few axes coverage lengths
  have boundary := boundary_few axes
  have kept : count (unrepeated program axes coverage typical) tag ≤
      count (proposed program axes coverage typical) tag :=
    (distinct_inputs_sublist _).countP_le
  refine Nat.le_trans kept ?_
  simp only [proposed, count_append, count_asked, four]
  cases tag <;> simp [share, typicalCount, adversarialInputs, few, boundary]

theorem shared_completed (program : Program) (axes : Axes) (coverage typical : List (List Word))
    (lengths : coverage.map List.length = coverageLengths axes)
    (four : typical.length = typicalCount) :
    Shared (completed program axes coverage typical) := by
  refine completed_of_step program axes coverage typical Shared
    (shared_unrepeated program axes coverage typical lengths four) ?_
  intro queries tag input shared absent _ _ other
  have added : count [ask program tag input] other = if tag = other then 1 else 0 :=
    count_asked program tag other [input]
  rw [count_append, added]
  split
  · next same =>
      have none : count queries other = 0 :=
        List.countP_eq_zero.mpr fun query member => by simpa [same] using absent query member
      rw [none]
      cases other <;> decide
  · exact shared other

theorem few_of_shared (queries : List Query) (shared : Shared queries) : queries.length ≤ 13 := by
  have coverage := shared .coverage
  have boundary := shared .boundary
  have typical := shared .typical
  have adversarial := shared .adversarial
  rw [length_of_counts]
  simp only [share, QueryTag.all, List.map_cons, List.map_nil, List.sum_cons,
    List.sum_nil] at *
  omega

theorem distinct_first (least short middle : Nat) :
    ∃ rest, distinct [least, short, middle] = least :: rest := by
  simp only [distinct, List.foldl_cons, List.foldl_nil, List.not_mem_nil, if_false, List.nil_append]
  split <;> split <;> exact ⟨_, rfl⟩

theorem distinct_inputs_first (query : Query) (queries : List Query) :
    ∃ rest, distinctInputs (query :: queries) = query :: rest := by
  induction queries using List.reverseRecOn with
  | nil => exact ⟨[], rfl⟩
  | append_singleton front last ih =>
      obtain ⟨rest, kept⟩ := ih
      rw [← List.cons_append]
      rcases distinct_inputs_append (query :: front) last with ⟨-, same⟩ | ⟨-, grown⟩
      · exact ⟨rest, by rw [same, kept]⟩
      · exact ⟨rest ++ [last], by rw [grown, kept, List.cons_append]⟩

theorem completed_first (program : Program) (axes : Axes) (coverage typical : List (List Word))
    (lengths : coverage.map List.length = coverageLengths axes) :
    ∃ input rest, completed program axes coverage typical = ask program .coverage input :: rest ∧
      input.length = axes.minLength := by
  obtain ⟨others, led⟩ := distinct_first axes.minLength (shortLength axes) (middleLength axes)
  rw [coverageLengths, led] at lengths
  obtain ⟨input, covered, rfl, length, -⟩ := List.map_eq_cons_iff.mp lengths
  refine ⟨input, ?_⟩
  suffices held : ∃ rest, completed program axes (input :: covered) typical =
      ask program .coverage input :: rest by
    obtain ⟨rest, same⟩ := held
    exact ⟨rest, same, length⟩
  refine completed_of_step program axes (input :: covered) typical
    (fun queries => ∃ rest, queries = ask program .coverage input :: rest) ?_ ?_
  · exact distinct_inputs_first _ _
  · rintro _ tag other ⟨rest, rfl⟩ - - -
    exact ⟨rest ++ [ask program tag other], rfl⟩

theorem input_kept (program : Program) (axes : Axes) (coverage typical : List (List Word))
    (input : List Word) (known : input ∈ inputs (unrepeated program axes coverage typical)) :
    input ∈ inputs (completed program axes coverage typical) :=
  completed_of_step program axes coverage typical (fun queries => input ∈ inputs queries) known
    fun queries _ _ member _ _ _ => (inputs_append queries _ input).mpr (.inl member)

theorem admitted_of_asked {axes : Axes} (valid : axes.Valid) (coverage typical : List (List Word))
    (drawnCoverage : (coverageInputs axes).Yields coverage)
    (drawnTypical : (typicalInputs axes).Yields typical) (input : List Word)
    (member : input ∈ asked axes coverage typical) : axes.Admits input := by
  obtain ⟨lengths, elements⟩ := (yields_coverage axes coverage).mp drawnCoverage
  simp only [asked, List.mem_append] at member
  rcases member with (((covered | boundary) | drawn) | adversarial) | tried
  · rw [valid.admits_iff]
    have length : input.length ∈ coverageLengths axes := lengths ▸ List.mem_map_of_mem covered
    exact ⟨coverage_length_bounds valid _ length, elements input covered⟩
  · exact boundary_admitted valid input boundary
  · exact ((yields_typical valid typical).mp drawnTypical).2 input drawn
  · exact adversarial_admitted valid input adversarial
  · exact searched_admitted valid input tried

theorem promised_completed (program : Program) {axes : Axes} (valid : axes.Valid)
    (coverage typical : List (List Word)) (drawnCoverage : (coverageInputs axes).Yields coverage)
    (drawnTypical : (typicalInputs axes).Yields typical) :
    Promised program axes (completed program axes coverage typical) := by
  have lengths := ((yields_coverage axes coverage).mp drawnCoverage).1
  have four := ((yields_typical valid typical).mp drawnTypical).1
  have least := valid.min_length
  have greatest := valid.max_length
  have sound := sound_completed program axes coverage typical
  obtain ⟨input, rest, started, shortest⟩ :=
    completed_first program axes coverage typical lengths
  have once (input : List Word) (proposal : input ∈ boundaryInputs axes ∨
      input ∈ adversarialInputs axes) :
      (inputs (completed program axes coverage typical)).count input = 1 := by
    refine List.count_eq_one_of_mem sound.distinct (input_kept program axes _ _ input ?_)
    rw [inputs_of_unrepeated]
    rcases proposal with boundary | adversarial
    · exact .inr (.inl boundary)
    · exact .inr (.inr (.inr adversarial))
  constructor
  case distinct => exact sound.distinct
  case answered => exact sound.answered
  case admitted =>
    intro input member
    exact admitted_of_asked valid coverage typical drawnCoverage drawnTypical input
      (inputs_asked program axes coverage typical member)
  case few =>
    refine ⟨?_, few_of_shared _ (shared_completed program axes coverage typical lengths four)⟩
    rw [started]
    exact Nat.succ_pos _
  case first => exact ⟨_, rest, started, rfl, by rw [ask, shortest, least]⟩
  case boundary =>
    intro length extreme
    have shape : length = axes.minLength ∨ length = axes.maxLength := by omega
    exact ⟨once _ (.inl ((mem_boundary axes _).mpr ⟨length, shape, .inl rfl⟩)),
      once _ (.inl ((mem_boundary axes _).mpr ⟨length, shape, .inr rfl⟩))⟩
  case adversarial => exact fun input member => once input (.inr member)

/-- For every program and every axes that pass their check, no operation on the way to the queries
is undefined, every question has an answer, and whatever the answers are, the queries are as
promised. -/
theorem generated_as_promised (program : Program) (axes : Axes) (passed : axes.check = none) :
    generate? program axes = OptionT.lift (generate program axes) ∧
      (generate program axes).Answerable ∧
      ∀ queries, (generate program axes).Yields queries → Promised program axes queries := by
  have valid := (Axes.check_none_iff axes).mp passed
  refine ⟨generate_defined program valid, answerable_generate program valid,
    fun queries drawn => ?_⟩
  obtain ⟨coverage, typical, drawnCoverage, drawnTypical, rfl⟩ :=
    (yields_generate program axes queries).mp drawn
  exact promised_completed program valid coverage typical drawnCoverage drawnTypical

def widest : Axes :=
  { Axes.standard with value := ⟨Int64.minValue, Int64.maxValue⟩, listLength := ⟨0, maxListLength⟩ }

theorem generated_as_promised_widest :
    widest.check = none ∧
      generate? ⟨[.halt], 1, .wrap, .cyclic, by simp, by decide⟩ widest =
        OptionT.lift (generate ⟨[.halt], 1, .wrap, .cyclic, by simp, by decide⟩ widest) ∧
      (generate ⟨[.halt], 1, .wrap, .cyclic, by simp, by decide⟩ widest).Answerable ∧
      ∀ queries, (generate ⟨[.halt], 1, .wrap, .cyclic, by simp, by decide⟩ widest).Yields queries →
        Promised ⟨[.halt], 1, .wrap, .cyclic, by simp, by decide⟩ widest queries := by
  have passed : widest.check = none := by decide +kernel
  exact ⟨passed, generated_as_promised _ widest passed⟩

end StackMachine.Sample.Query

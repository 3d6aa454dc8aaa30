import Mathlib.Data.List.Forall2
import StackMachine.Random.Draw

/-!
# Outcomes of random computations

What a draw can come to, for each of its forms, and the draws that come to something whoever
answers: those that never ask for a word between bounds that leave no choice.
-/

namespace StackMachine.Random.Draw

set_option autoImplicit false

variable {α β : Type}

theorem bind_of_done (draw : Draw α) : draw.bind done = draw := by
  induction draw with
  | done value => rfl
  | ask low high next ih => exact congrArg (Draw.ask low high) (funext ih)

/-- Draws put in order do not depend on how they are grouped. -/
theorem bind_grouped {γ : Type} (draw : Draw α) (second : α → Draw β) (third : β → Draw γ) :
    (draw.bind second).bind third = draw.bind fun value => (second value).bind third := by
  induction draw with
  | done value => rfl
  | ask low high next ih => exact congrArg (Draw.ask low high) (funext ih)

instance : LawfulMonad Draw := LawfulMonad.mk' Draw bind_of_done (fun _ _ => rfl) bind_grouped

@[simp]
theorem yields_done (value result : α) : (done value).Yields result ↔ result = value := by
  constructor
  · rintro ⟨⟩
    rfl
  · rintro rfl
    exact .done result

@[simp]
theorem yields_pure (value result : α) :
    (pure value : Draw α).Yields result ↔ result = value :=
  yields_done value result

theorem yields_ask (low high : Word) (next : Word → Draw α) (result : α) :
    (Draw.ask low high next).Yields result ↔
      ∃ answer, low ≤ answer ∧ answer ≤ high ∧ (next answer).Yields result := by
  constructor
  · rintro ⟨⟩
    next answer above below rest => exact ⟨answer, above, below, rest⟩
  · rintro ⟨answer, above, below, rest⟩
    exact .ask low high answer next result above below rest

theorem yields_bind (draw : Draw α) (proceed : α → Draw β) (result : β) :
    (draw >>= proceed).Yields result ↔
      ∃ middle, draw.Yields middle ∧ (proceed middle).Yields result := by
  change (draw.bind proceed).Yields result ↔ _
  induction draw with
  | done value => simp [bind]
  | ask low high next ih =>
      simp only [bind, yields_ask, ih]
      constructor
      · rintro ⟨answer, above, below, middle, first, rest⟩
        exact ⟨middle, ⟨answer, above, below, first⟩, rest⟩
      · rintro ⟨middle, ⟨answer, above, below, first⟩, rest⟩
        exact ⟨answer, above, below, middle, first, rest⟩

theorem yields_word (low high word : Word) :
    (Draw.word low high).Yields word ↔ low ≤ word ∧ word ≤ high := by
  simp [Draw.word, yields_ask]

theorem yields_words_after (low high : Word) (count : Nat) (drawn words : List Word) :
    (wordsAfter low high drawn count).Yields words ↔
      ∃ fresh : List Word, words = drawn.reverse ++ fresh ∧ fresh.length = count ∧
        ∀ word ∈ fresh, low ≤ word ∧ word ≤ high := by
  induction count generalizing drawn with
  | zero =>
      rw [wordsAfter, yields_done]
      constructor
      · rintro rfl
        exact ⟨[], by simp, rfl, by simp⟩
      · rintro ⟨fresh, rfl, empty, -⟩
        rw [List.eq_nil_of_length_eq_zero empty, List.append_nil]
  | succ count ih =>
      simp only [wordsAfter, yields_ask, ih]
      constructor
      · rintro ⟨answer, above, below, fresh, rfl, length, within⟩
        refine ⟨answer :: fresh, by simp, by simp [length], fun word member => ?_⟩
        rcases List.mem_cons.mp member with rfl | later
        · exact ⟨above, below⟩
        · exact within word later
      · rintro ⟨fresh, rfl, length, within⟩
        obtain ⟨answer, others, rfl⟩ := List.exists_cons_of_length_eq_add_one length
        have first := within answer (by simp)
        exact ⟨answer, first.1, first.2, others, by simp, by simpa using length,
          fun word member => within word (List.mem_cons_of_mem _ member)⟩

theorem yields_words (low high : Word) (count : Nat) (words : List Word) :
    (Draw.words low high count).Yields words ↔
      words.length = count ∧ ∀ word ∈ words, low ≤ word ∧ word ≤ high := by
  simp [Draw.words, yields_words_after]

theorem yields_sequence (draws : List (Draw α)) (values : List α) :
    (sequence draws).Yields values ↔ List.Forall₂ Yields draws values := by
  induction draws generalizing values with
  | nil => simp [sequence]
  | cons draw draws ih =>
      simp only [sequence, yields_bind, yields_pure, ih, List.forall₂_cons_left_iff]
      constructor
      · rintro ⟨value, first, others, rest, rfl⟩
        exact ⟨value, others, first, rest, rfl⟩
      · rintro ⟨value, others, first, rest, rfl⟩
        exact ⟨value, first, others, rest, rfl⟩

/-- However the questions so far were answered, the next one has an answer. -/
inductive Answerable : Draw α → Prop where
  | done (value : α) : Answerable (.done value)
  | ask (low high : Word) (next : Word → Draw α) : low ≤ high →
      (∀ answer, low ≤ answer → answer ≤ high → Answerable (next answer)) →
        Answerable (.ask low high next)

theorem answerable_bind (draw : Draw α) (proceed : α → Draw β) (first : Answerable draw)
    (rest : ∀ middle, draw.Yields middle → Answerable (proceed middle)) :
    Answerable (draw >>= proceed) := by
  change Answerable (draw.bind proceed)
  induction first with
  | done value => exact rest value ((yields_done value value).mpr rfl)
  | ask low high next ordered _ ih =>
      refine .ask low high _ ordered fun answer above below => ih answer above below ?_
      intro middle yields
      exact rest middle ((yields_ask _ _ _ _).mpr ⟨answer, above, below, yields⟩)

theorem answerable_word (low high : Word) (ordered : low ≤ high) :
    Answerable (Draw.word low high) :=
  .ask low high _ ordered fun answer _ _ => .done answer

theorem answerable_words (low high : Word) (count : Nat) (ordered : low ≤ high) :
    Answerable (Draw.words low high count) := by
  have after (drawn : List Word) : Answerable (wordsAfter low high drawn count) := by
    induction count generalizing drawn with
    | zero => exact .done _
    | succ count ih => exact .ask low high _ ordered fun answer _ _ => ih (answer :: drawn)
  exact after []

theorem answerable_sequence (draws : List (Draw α)) (all : ∀ draw ∈ draws, Answerable draw) :
    Answerable (sequence draws) := by
  induction draws with
  | nil => exact .done []
  | cons draw draws ih =>
      have rest := ih fun other member => all other (List.mem_cons_of_mem _ member)
      refine answerable_bind draw _ (all draw (by simp)) fun value _ => ?_
      exact answerable_bind _ _ rest fun values _ => .done (value :: values)

end StackMachine.Random.Draw

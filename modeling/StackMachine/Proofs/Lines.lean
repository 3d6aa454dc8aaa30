import Mathlib.Data.List.Infix
import StackMachine.Text

/-!
# Lines of a text

A newline separates what stands before it from what stands behind it, so a text splits into lines at
each newline by itself. A text made of lines that each end with a newline splits back into these
lines; only a newline inside a line could be taken for an end, so the lines have to be free of it.
-/

namespace StackMachine.Text

set_option autoImplicit false

theorem split_from_append (separator : UInt8) (pending front rest : Text) :
    splitFrom separator pending (front ++ separator :: rest) =
      splitFrom separator pending front ++ splitFrom separator [] rest := by
  induction front generalizing pending with
  | nil => simp [splitFrom]
  | cons byte front ih =>
      simp only [List.cons_append, splitFrom]
      split
      · rw [ih, List.cons_append]
      · exact ih (byte :: pending)

theorem split_from_clean (separator : UInt8) (pending row : Text) (clean : separator ∉ row) :
    splitFrom separator pending row = [pending.reverse ++ row] := by
  induction row generalizing pending with
  | nil => simp [splitFrom]
  | cons byte row ih =>
      rw [List.mem_cons, not_or] at clean
      rw [splitFrom, if_neg (Ne.symm clean.1), ih (byte :: pending) clean.2]
      simp

/-- There is one piece more than there are separators. -/
theorem length_split_from (separator : UInt8) (pending text : Text) :
    (splitFrom separator pending text).length = text.count separator + 1 := by
  induction text generalizing pending with
  | nil => rfl
  | cons byte text ih =>
      rw [splitFrom]
      split
      · next separates => rw [List.length_cons, ih, separates, List.count_cons_self]
      · next other => rw [ih, List.count_cons_of_ne other]

theorem split_from_ne_nil (separator : UInt8) (pending text : Text) :
    splitFrom separator pending text ≠ [] := by
  apply List.ne_nil_of_length_pos
  rw [length_split_from]
  exact Nat.succ_pos _

theorem lines_append (front rest : Text) :
    lines (front ++ newline :: rest) = split newline front ++ lines rest := by
  have nonempty : split newline rest ≠ [] := split_from_ne_nil newline [] rest
  have last :
      (split newline front ++ split newline rest).getLast? = (split newline rest).getLast? := by
    rw [List.getLast?_append, List.getLast?_eq_some_getLast nonempty]
    rfl
  rw [lines, lines, split, split_from_append, ← split, ← split, last]
  split
  · rw [List.dropLast_append_of_ne_nil nonempty]
  · rfl

theorem lines_cons (row rest : Text) (clean : newline ∉ row) :
    lines (row ++ newline :: rest) = row :: lines rest := by
  have one : split newline row = [row] := split_from_clean newline [] row clean
  rw [lines_append, one, List.singleton_append]

theorem lines_clean (row : Text) (clean : newline ∉ row) :
    lines row = if row = [] then [] else [row] := by
  have one : split newline row = [row] := split_from_clean newline [] row clean
  rw [lines, one]
  by_cases empty : row = [] <;> simp [empty]

theorem piece_length_le (separator : UInt8) (pending text piece : Text)
    (member : piece ∈ splitFrom separator pending text) :
    piece.length ≤ pending.length + text.length := by
  induction text generalizing pending with
  | nil =>
      rw [List.mem_singleton.mp member]
      simp
  | cons byte text ih =>
      rw [splitFrom] at member
      rw [List.length_cons]
      split at member
      · rcases List.mem_cons.mp member with rfl | later
        · rw [List.length_reverse]
          exact Nat.le_add_right _ _
        · have bound := ih [] later
          rw [List.length_nil] at bound
          omega
      · have bound := ih (byte :: pending) member
        rw [List.length_cons] at bound
        omega

theorem piece_of_line {text line : Text} (member : line ∈ lines text) :
    line ∈ split newline text := by
  rw [lines] at member
  split at member
  · exact List.mem_of_mem_dropLast member
  · exact member

theorem line_length_le (text line : Text) (member : line ∈ lines text) :
    line.length ≤ text.length := by
  simpa using piece_length_le newline [] text line (piece_of_line member)

/-- A text has a byte for each of its lines: the newline behind it or, behind the last newline, a
byte of the line. -/
theorem length_lines_le (text : Text) : (lines text).length ≤ text.length := by
  rcases text.eq_nil_or_concat' with rfl | ⟨front, last, rfl⟩
  · exact Nat.le_refl 0
  · have counted : (split newline front).length ≤ front.length + 1 := by
      rw [split, length_split_from]
      exact Nat.succ_le_succ List.count_le_length
    rw [List.length_append, List.length_singleton]
    by_cases newlineLast : last = newline
    · rw [newlineLast, lines_append]
      exact (List.length_append ..).trans_le counted
    · have pieces : (split newline (front ++ [last])).length = (split newline front).length := by
        simp [split, length_split_from, newlineLast]
      have few : (lines (front ++ [last])).length ≤ (split newline (front ++ [last])).length := by
        rw [lines]
        split
        · rw [List.length_dropLast]
          exact Nat.sub_le _ 1
        · exact Nat.le_refl _
      omega
/-- Every line followed by a newline. -/
def terminated (rows : List Text) : Text := rows.flatMap fun row => row ++ [newline]

theorem terminated_cons (row : Text) (rows : List Text) :
    terminated (row :: rows) = row ++ newline :: terminated rows := by
  simp [terminated]

theorem split_terminated (rows : List Text) (clean : ∀ row ∈ rows, newline ∉ row) :
    split newline (terminated rows) = rows ++ [[]] := by
  induction rows with
  | nil => rfl
  | cons row rows ih =>
      have rest := ih fun other member => clean other (List.mem_cons_of_mem _ member)
      rw [split] at rest ⊢
      rw [terminated_cons, split_from_append, rest, split_from_clean _ _ _ (clean row (by simp))]
      rfl

theorem lines_terminated (rows : List Text) (clean : ∀ row ∈ rows, newline ∉ row) :
    lines (terminated rows) = rows := by
  simp [lines, split_terminated rows clean]

end StackMachine.Text

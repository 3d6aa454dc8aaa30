import Mathlib.Data.List.DropRight
import StackMachine.Text

/-!
# Positions in a text

A loop moves a position forwards over the bytes that pass a test, or backwards, and stops at the
first byte that fails or at the end. What it passes is the longest such row of bytes from where it
started. A position is only looked at inside the text.
-/

namespace StackMachine.Text

set_option autoImplicit false

/-- Moves forwards while the bytes pass the test. -/
def seek (test : UInt8 → Bool) (text : Text) (position : Nat) : Nat :=
  if inside : position < text.length then
    if test text[position] then seek test text (position + 1) else position
  else position
termination_by text.length - position

/-- Moves the end `last` of the bytes from `first` on backwards while the last of them passes the
test. -/
def retreat (test : UInt8 → Bool) (text : Text) (first : Nat) :
    (last : Nat) → last ≤ text.length → Nat
  | 0, _ => 0
  | last + 1, inside =>
      if first < last + 1 ∧ test text[last] = true then
        retreat test text first last (Nat.le_of_succ_le inside)
      else last + 1

/-- The bytes from one position up to another. -/
def slice (text : Text) (first last : Nat) : Text := (text.drop first).take (last - first)

section

variable (test : UInt8 → Bool) (text : Text) (position : Nat)

theorem seek_passed :
    seek test text position = position + ((text.drop position).takeWhile test).length := by
  fun_induction seek test text position with
  | case1 position inside passes ih =>
      rw [ih, List.drop_eq_getElem_cons inside, List.takeWhile_cons_of_pos passes,
        List.length_cons]
      omega
  | case2 position inside fails =>
      rw [List.drop_eq_getElem_cons inside, List.takeWhile_cons_of_neg fails]
      rfl
  | case3 position outside =>
      rw [List.drop_of_length_le (Nat.le_of_not_lt outside)]
      rfl

theorem le_seek : position ≤ seek test text position := by
  rw [seek_passed]
  exact Nat.le_add_right _ _

theorem seek_le (inside : position ≤ text.length) : seek test text position ≤ text.length := by
  have few := (List.takeWhile_prefix test (l := text.drop position)).length_le
  rw [List.length_drop] at few
  rw [seek_passed]
  omega

theorem seek_passes (other : Nat) (behind : position ≤ other)
    (before : other < seek test text position) : ∃ byte ∈ text[other]?, test byte = true := by
  fun_induction seek test text position with
  | case1 position inside passes ih =>
      rcases Nat.eq_or_lt_of_le behind with rfl | later
      · exact ⟨text[position], List.getElem?_eq_getElem inside, passes⟩
      · exact ih later before
  | case2 | case3 => omega

theorem seek_stops : ∀ byte ∈ text[seek test text position]?, test byte = false := by
  fun_induction seek test text position with
  | case1 position inside passes ih => exact ih
  | case2 position inside fails =>
      intro byte found
      rw [List.getElem?_eq_getElem inside, Option.mem_some] at found
      rw [← found]
      simpa using fails
  | case3 position outside =>
      intro byte found
      rw [List.getElem?_eq_none (Nat.le_of_not_lt outside)] at found
      cases found

theorem lt_seek (passes : ∃ byte ∈ text[position]?, test byte = true) :
    position < seek test text position := by
  refine Nat.lt_of_le_of_ne (le_seek test text position) fun same => ?_
  obtain ⟨byte, found, pass⟩ := passes
  have fails := seek_stops test text position byte (by rw [← same]; exact found)
  rw [pass] at fails
  cases fails

theorem seek_here (fails : ∀ byte ∈ text[position]?, test byte = false) :
    seek test text position = position := by
  rw [seek]
  split
  · next inside => rw [fails _ (List.getElem?_eq_getElem inside), if_neg Bool.false_ne_true]
  · rfl

theorem seek_end_iff (inside : position ≤ text.length) :
    seek test text position = text.length ↔ ∀ byte ∈ text.drop position, test byte = true := by
  have prefixed := List.takeWhile_prefix test (l := text.drop position)
  rw [seek_passed, ← List.takeWhile_eq_self_iff]
  constructor
  · intro reached
    refine prefixed.eq_of_length ?_
    rw [List.length_drop]
    omega
  · intro all
    rw [all, List.length_drop]
    omega

theorem slice_seek :
    slice text position (seek test text position) = (text.drop position).takeWhile test := by
  have passed : ((text.drop position).takeWhile test ++ (text.drop position).dropWhile test).take
      ((text.drop position).takeWhile test).length = (text.drop position).takeWhile test :=
    List.take_left
  rw [List.takeWhile_append_dropWhile] at passed
  rw [slice, seek_passed, Nat.add_sub_cancel_left, passed]

theorem drop_seek :
    text.drop (seek test text position) = (text.drop position).dropWhile test := by
  have behind : ((text.drop position).takeWhile test ++ (text.drop position).dropWhile test).drop
      ((text.drop position).takeWhile test).length = (text.drop position).dropWhile test :=
    List.drop_left
  rw [List.takeWhile_append_dropWhile] at behind
  rw [seek_passed, ← List.drop_drop, behind]

end

theorem slice_append_drop (text : Text) (first last : Nat) (ordered : first ≤ last) :
    slice text first last ++ text.drop last = text.drop first := by
  have behind : text.drop last = (text.drop first).drop (last - first) := by
    rw [List.drop_drop, Nat.add_sub_cancel' ordered]
  rw [slice, behind, List.take_append_drop]

theorem length_slice (text : Text) (first last : Nat) (inside : last ≤ text.length) :
    (slice text first last).length = last - first := by
  rw [slice, List.length_take, List.length_drop]
  omega

theorem slice_empty (text : Text) (position : Nat) : slice text position position = [] := by
  rw [slice, Nat.sub_self, List.take_zero]

theorem slice_end (text : Text) (position : Nat) :
    slice text position text.length = text.drop position := by
  rw [slice, List.take_of_length_le (by rw [List.length_drop])]

theorem slice_succ (text : Text) {first last : Nat} (ordered : first ≤ last)
    (inside : last < text.length) :
    slice text first (last + 1) = slice text first last ++ [text[last]] := by
  have short : last - first < (text.drop first).length := by
    rw [List.length_drop]
    omega
  have place : first + (last - first) = last := Nat.add_sub_cancel' ordered
  rw [slice, Nat.succ_sub ordered, List.take_succ_eq_append_getElem short, List.getElem_drop]
  simp only [place]
  rfl

/-- By induction on the end, which is what the loop moves. -/
theorem slice_retreat (test : UInt8 → Bool) (text : Text) (first last : Nat)
    (ordered : first ≤ last) (inside : last ≤ text.length) :
    slice text first (retreat test text first last inside) =
      (slice text first last).rdropWhile test := by
  induction last with
  | zero =>
      rw [Nat.le_zero.mp ordered, retreat, slice_empty, List.rdropWhile_nil]
  | succ last ih =>
      rw [retreat]
      by_cases more : first < last + 1
      · have earlier : first ≤ last := Nat.le_of_lt_succ more
        rw [slice_succ text earlier inside]
        by_cases passes : test text[last] = true
        · rw [if_pos ⟨more, passes⟩, List.rdropWhile_concat_pos _ _ _ passes]
          exact ih earlier (Nat.le_of_succ_le inside)
        · rw [if_neg fun both => passes both.2, List.rdropWhile_concat_neg _ _ _ passes,
            slice_succ text earlier inside]
      · have empty : first = last + 1 := by omega
        rw [if_neg fun both => more both.1, empty, slice_empty, List.rdropWhile_nil]

/-- Drops white space at both ends by two loops. -/
def trimmed (text : Text) : Text :=
  let first := seek isSpace text 0
  slice text first (retreat isSpace text first text.length (Nat.le_refl _))

theorem trimmed_is_trim (text : Text) : trimmed text = trim text := by
  have inside : seek isSpace text 0 ≤ text.length := seek_le _ _ _ (Nat.zero_le _)
  have whole : slice text (seek isSpace text 0) text.length = text.dropWhile isSpace := by
    rw [slice_end, drop_seek, List.drop_zero]
  rw [trimmed, slice_retreat _ _ _ _ inside, whole]
  rfl

end StackMachine.Text

import Mathlib.Data.List.Forall2
import StackMachine.Proofs.Command.Arguments
import StackMachine.Proofs.Decimal.Conversion

/-!
# Lists of inputs

A list of inputs has a literal between any two commas, before the first and behind the last one, with
white space around it; white space alone is the empty list. The reader accepts these texts and no
others, and it reads back whatever is written so. A loop that looks for one comma after the other
reads the same lists.
-/

namespace StackMachine.Command

set_option autoImplicit false

/-- White space and nothing else. -/
def Blank (text : Text) : Prop := ∀ byte ∈ text, Text.isSpace byte = true

/-- A literal of the word with white space around it. -/
def Spells (piece : Text) (word : Word) : Prop :=
  ∃ front literal back, piece = front ++ literal ++ back ∧ Blank front ∧ Blank back ∧
    Decimal.Literal literal word

theorem trim_is_drop (text : Text) :
    Text.trim text = (text.dropWhile Text.isSpace).rdropWhile Text.isSpace := rfl

theorem trim_nil_iff (text : Text) : Text.trim text = [] ↔ Blank text := by
  rw [trim_is_drop, List.rdropWhile_eq_nil_iff]
  constructor
  · intro behind byte member
    rw [← List.takeWhile_append_dropWhile (p := Text.isSpace) (l := text)] at member
    rcases List.mem_append.mp member with first | later
    · exact List.mem_takeWhile_imp first
    · exact behind byte later
  · intro blank byte member
    exact blank byte (List.dropWhile_suffix Text.isSpace |>.subset member)

theorem trim_parts (text : Text) :
    ∃ front back, text = front ++ Text.trim text ++ back ∧ Blank front ∧ Blank back := by
  refine ⟨text.takeWhile Text.isSpace,
    (text.dropWhile Text.isSpace).rtakeWhile Text.isSpace, ?_, ?_, ?_⟩
  · rw [trim_is_drop, List.append_assoc, List.rdropWhile_append_rtakeWhile,
      List.takeWhile_append_dropWhile]
  · exact fun byte member => List.mem_takeWhile_imp member
  · exact fun byte member => List.mem_rtakeWhile_imp member

theorem drop_behind (core back : Text) (blank : Blank back)
    (solid : ∀ byte ∈ core, Text.isSpace byte = false) :
    (core ++ back).rdropWhile Text.isSpace = core := by
  have reversed : Blank back.reverse := fun byte member => blank byte (List.mem_reverse.mp member)
  have kept : ∀ byte ∈ core.reverse, Text.isSpace byte = false :=
    fun byte member => solid byte (List.mem_reverse.mp member)
  rw [List.rdropWhile, List.reverse_append, List.dropWhile_append_of_pos reversed,
    Text.drop_solid _ kept, List.reverse_reverse]

theorem trim_padded (front core back : Text) (frontBlank : Blank front) (backBlank : Blank back)
    (solid : ∀ byte ∈ core, Text.isSpace byte = false) :
    Text.trim (front ++ core ++ back) = core := by
  rw [trim_is_drop, List.append_assoc, List.dropWhile_append_of_pos frontBlank]
  cases core with
  | nil => rw [List.nil_append, List.dropWhile_eq_nil_iff.mpr backBlank, List.rdropWhile_nil]
  | cons byte core =>
      have first : ¬Text.isSpace byte = true := by simp [solid byte]
      rw [List.cons_append, List.dropWhile_cons_of_neg first, ← List.cons_append,
        drop_behind _ back backBlank solid]

theorem literal_solid {literal : Text} {word : Word} (spelled : Decimal.Literal literal word) :
    ∀ byte ∈ literal, Text.isSpace byte = false := by
  obtain ⟨sign, digits, signs, row, rfl⟩ := Decimal.row_of_numeral spelled
  intro byte member
  rcases List.mem_append.mp member with signed | digit
  · rcases signs with rfl | rfl | rfl
    · cases signed
    · rw [List.mem_singleton.mp signed]
      rfl
    · rw [List.mem_singleton.mp signed]
      rfl
  · exact (Decimal.digit_is_plain (row.bytes byte digit)).1

theorem spells_iff (piece : Text) (word : Word) :
    Decimal.toWord? (Text.trim piece) = some word ↔ Spells piece word := by
  rw [Decimal.literal_iff]
  constructor
  · intro spelled
    obtain ⟨front, back, shape, frontBlank, backBlank⟩ := trim_parts piece
    exact ⟨front, Text.trim piece, back, shape, frontBlank, backBlank, spelled⟩
  · rintro ⟨front, literal, back, rfl, frontBlank, backBlank, spelled⟩
    rwa [trim_padded front literal back frontBlank backBlank (literal_solid spelled)]

theorem map_m_iff {α β : Type} (read : α → Option β) (pieces : List α) (values : List β) :
    pieces.mapM read = some values ↔
      List.Forall₂ (fun piece value => read piece = some value) pieces values := by
  induction pieces generalizing values with
  | nil =>
      rw [List.mapM_nil, List.forall₂_nil_left_iff]
      exact Option.some_inj.trans eq_comm
  | cons piece pieces ih =>
      rw [List.mapM_cons, List.forall₂_cons_left_iff]
      simp only [← ih]
      cases read piece <;> cases pieces.mapM read <;> simp [eq_comm]

theorem split_at_commas (text : Text) : Text.split comma text = text.splitOn comma :=
  Assembly.split_from_prepend comma [] text

theorem read_nonblank_iff (text : Text) (values : List Word) (nonblank : ¬Blank text) :
    readInputs? text = some values ↔ List.Forall₂ Spells (text.splitOn comma) values := by
  rw [readInputs?, if_neg (mt (trim_nil_iff text).mp nonblank), split_at_commas, map_m_iff]
  simp only [spells_iff]

def notComma (byte : UInt8) : Bool := byte != comma

/-- Reads the items from `start` on behind the values read so far, up to the next comma or the end
of the text. -/
def inputsFrom (text : Text) (values : List Word) (start : Fin (text.length + 1)) :
    Option (List Word) :=
  let stop := Text.seek notComma text start
  have : start ≤ stop := Text.le_seek notComma text start
  match Decimal.readInto (Text.trimmed (Text.slice text start stop)) 0 with
  | (false, _) => none
  | (true, value) =>
      if more : stop < text.length then
        inputsFrom text (values ++ [value]) ⟨stop + 1, Nat.succ_lt_succ more⟩
      else some (values ++ [value])
termination_by text.length + 1 - start

def loopInputs (text : Text) : Option (List Word) :=
  if Text.trimmed text = [] then some [] else inputsFrom text [] 0

theorem no_comma_before (text : Text) (start : Nat) :
    comma ∉ Text.slice text start (Text.seek notComma text start) := by
  rw [Text.slice_seek]
  intro member
  have other := List.mem_takeWhile_imp member
  simp [notComma] at other

/-- The piece up to the next comma, and the pieces behind it. -/
theorem split_at_comma (text : Text) (start : Nat) (within : start ≤ text.length) :
    Text.split comma (text.drop start) =
      Text.slice text start (Text.seek notComma text start) ::
        if Text.seek notComma text start < text.length then
          Text.split comma (text.drop (Text.seek notComma text start + 1))
        else [] := by
  have clean := no_comma_before text start
  have stops := Text.seek_stops notComma text start
  have reached := Text.seek_le notComma text start within
  have parts := Text.slice_append_drop text start _ (Text.le_seek notComma text start)
  generalize Text.seek notComma text start = stop at *
  rw [← parts]
  by_cases more : stop < text.length
  · have separates : text[stop] = comma := by
      simpa [notComma] using stops _ (List.getElem?_eq_getElem more)
    rw [if_pos more, List.drop_eq_getElem_cons more, separates, Text.split,
      Text.split_from_append, Text.split_from_clean _ _ _ clean]
    rfl
  · rw [if_neg more, List.drop_of_length_le (Nat.le_of_not_lt more), List.append_nil, Text.split,
      Text.split_from_clean _ _ _ clean]
    rfl

/-- By induction as the loop runs, with the values read so far in front. -/
theorem inputs_from_pieces (text : Text) (values : List Word) (start : Fin (text.length + 1)) :
    inputsFrom text values start =
      ((Text.split comma (text.drop start)).mapM fun piece =>
        Decimal.toWord? (Text.trim piece)).map (values ++ ·) := by
  have within (start : Fin (text.length + 1)) : start.val ≤ text.length :=
    Nat.le_of_lt_succ start.isLt
  fun_induction inputsFrom text values start with
  | case1 values start stop order held refused =>
      rw [Text.trimmed_is_trim] at refused
      rw [split_at_comma text start (within start), List.mapM_cons, Decimal.refused_of_read refused]
      rfl
  | case2 values start stop order word read more ih =>
      rw [Text.trimmed_is_trim] at read
      rw [ih, split_at_comma text start (within start), List.mapM_cons, Decimal.word_of_read read,
        if_pos more]
      cases (Text.split comma (text.drop (stop + 1))).mapM fun piece =>
          Decimal.toWord? (Text.trim piece) with
      | none => rfl
      | some later => exact congrArg some (List.append_assoc values [word] later)
  | case3 values start stop order word read last =>
      rw [Text.trimmed_is_trim] at read
      rw [split_at_comma text start (within start), List.mapM_cons, Decimal.word_of_read read,
        if_neg last]
      rfl

theorem loop_reads_list (text : Text) : loopInputs text = readInputs? text := by
  rw [loopInputs, readInputs?, Text.trimmed_is_trim, inputs_from_pieces]
  simp

/-- A word to be written, with white space around it. -/
structure Entry where
  front : Text
  word : Word
  back : Text
  frontBlank : Blank front
  backBlank : Blank back

def Entry.text (entry : Entry) : Text :=
  entry.front ++ Decimal.ofInt entry.word.toInt ++ entry.back

theorem Entry.spells (entry : Entry) : Spells entry.text entry.word :=
  ⟨_, _, _, rfl, entry.frontBlank, entry.backBlank,
    (Decimal.literal_iff _ _).mp (Decimal.to_word_of_int entry.word)⟩

theorem Entry.no_comma (entry : Entry) : comma ∉ entry.text := by
  have noSpace : ¬Text.isSpace comma = true := by decide
  rw [Entry.text, List.mem_append, List.mem_append]
  rintro ((front | digit) | back)
  · exact noSpace (entry.frontBlank _ front)
  · exact comma_not_mem_decimal _ digit
  · exact noSpace (entry.backBlank _ back)

theorem entries_nonblank (entry : Entry) (entries : List Entry) :
    ¬Blank (Text.join [comma] ((entry :: entries).map Entry.text)) := by
  intro blank
  have plain := Assembly.plain_of_int entry.word.toInt
  obtain ⟨byte, member⟩ := List.exists_mem_of_ne_nil _ plain.nonempty
  have written : byte ∈ entry.text :=
    List.mem_append_left _ (List.mem_append_right _ member)
  have space : Text.isSpace byte = true := by
    refine blank byte ?_
    cases entries with
    | nil => simpa [Text.join] using written
    | cons next entries => exact List.mem_append_left _ written
  rw [(plain.bytes byte member).1] at space
  cases space

theorem read_entries (entries : List Entry) :
    readInputs? (Text.join [comma] (entries.map Entry.text)) = some (entries.map Entry.word) := by
  cases entries with
  | nil => rfl
  | cons entry entries =>
      have pieces : (Text.join [comma] ((entry :: entries).map Entry.text)).splitOn comma =
          (entry :: entries).map Entry.text := by
        refine List.splitOn_intercalate comma (fun piece known => ?_) (List.cons_ne_nil _ _)
        obtain ⟨other, -, rfl⟩ := List.mem_map.mp known
        exact other.no_comma
      rw [read_nonblank_iff _ _ (entries_nonblank entry entries), pieces, List.forall₂_map_left_iff,
        List.forall₂_map_right_iff, List.forall₂_same]
      exact fun other _ => other.spells

/-- What a text comes to as a list of inputs. -/
structure ReadsList (text : Text) : Prop where
  empty : Blank text → readInputs? text = some []
  accepted : ¬Blank text →
    ((∃ values, readInputs? text = some values) ↔
      ∀ piece ∈ text.splitOn comma, ∃ word, Spells piece word)
  exact (values : List Word) : ¬Blank text →
    (readInputs? text = some values ↔ List.Forall₂ Spells (text.splitOn comma) values)
  count (values : List Word) : ¬Blank text → readInputs? text = some values →
    values.length = text.count comma + 1
  loop : loopInputs text = readInputs? text

theorem spelled_iff (pieces : List Text) :
    (∃ values, List.Forall₂ Spells pieces values) ↔ ∀ piece ∈ pieces, ∃ word, Spells piece word := by
  induction pieces with
  | nil => simp
  | cons piece pieces ih =>
      simp only [List.forall₂_cons_left_iff, List.forall_mem_cons, ← ih]
      constructor
      · rintro ⟨_, word, values, spelled, others, -⟩
        exact ⟨⟨word, spelled⟩, values, others⟩
      · rintro ⟨⟨word, spelled⟩, values, others⟩
        exact ⟨word :: values, word, values, spelled, others, rfl⟩

theorem reads_list (text : Text) : ReadsList text where
  empty blank := by rw [readInputs?, if_pos ((trim_nil_iff text).mpr blank)]
  accepted nonblank := by simp only [read_nonblank_iff text _ nonblank, spelled_iff]
  exact values nonblank := read_nonblank_iff text values nonblank
  count values nonblank read := by
    have pieces := (read_nonblank_iff text values nonblank).mp read
    rw [← pieces.length_eq, ← split_at_commas, Text.split, Text.length_split_from]
  loop := loop_reads_list text

/-- A text is read as the list it spells, piece by piece, and every written list is read back. -/
theorem input_lists_read :
    (∀ text, ReadsList text) ∧
      ∀ entries : List Entry,
        readInputs? (Text.join [comma] (entries.map Entry.text)) = some (entries.map Entry.word) :=
  ⟨reads_list, read_entries⟩

end StackMachine.Command

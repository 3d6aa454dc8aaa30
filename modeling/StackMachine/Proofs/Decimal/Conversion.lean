import Mathlib.Algebra.Group.Int.Defs
import StackMachine.Proofs.Assembly.Literal
import StackMachine.Proofs.Text.Cursor

/-!
# Reading a number into its place

A conversion reads as far as it can: over white space, over a sign, over the digits behind it. It
says how far it came, and it fails without a digit or where no word has the value. The reader of
literals lets it see only texts that are a sign and digits throughout, so all of the text is read;
what is no literal leaves the place of the number as it was.
-/

namespace StackMachine.Decimal

set_option autoImplicit false

/-- A value, and how many bytes were read for it. -/
structure Conversion where
  word : Word
  used : Nat
deriving DecidableEq, Repr

def isSign (byte : UInt8) : Bool := byte == plus || byte == minus

/-- The word of an integer, if there is one. -/
def fitted? (number : Int) : Option Word :=
  if Int64.minValue.toInt ≤ number ∧ number ≤ Int64.maxValue.toInt then some (Int64.ofInt number)
  else none

/-- Reads the number at the front of a text, after any white space. -/
def convert? (text : Text) : Option Conversion :=
  let start := Text.seek Text.isSpace text 0
  let first := if text[start]?.any isSign then start + 1 else start
  let stop := Text.seek Text.isDigit text first
  let magnitude : Int := value (Text.slice text first stop)
  if stop = first then none
  else
    (fitted? (if text[start]? = some minus then -magnitude else magnitude)).map fun word =>
      ⟨word, stop⟩

/-- Reads a literal into a place that holds a word: whether there is one, and what the place holds
afterwards. -/
def readInto (token : Text) (held : Word) : Bool × Word :=
  match token with
  | [] => (false, held)
  | byte :: _ =>
      let first := if isSign byte then 1 else 0
      if token.length ≤ first then (false, held)
      else if Text.seek Text.isDigit token first ≠ token.length then (false, held)
      else
        match convert? token with
        | some conversion =>
            if conversion.used = token.length then (true, conversion.word) else (false, held)
        | none => (false, held)

/-- One sign at most. -/
def Sign (sign : Text) : Prop := sign = [] ∨ sign = [plus] ∨ sign = [minus]

def signed (sign : Text) (magnitude : Nat) : Int :=
  if sign = [minus] then -magnitude else magnitude

/-- One digit or more. -/
structure Row (digits : Text) : Prop where
  nonempty : digits ≠ []
  bytes : ∀ byte ∈ digits, Text.isDigit byte = true

theorem digit_is_plain {byte : UInt8} (digit : Text.isDigit byte = true) :
    Text.isSpace byte = false ∧ isSign byte = false ∧ byte ≠ minus := by
  simp only [Text.isDigit, Bool.and_eq_true, decide_eq_true_eq, UInt8.le_iff_toNat_le] at digit
  simp only [Text.isSpace, isSign, plus, minus, Bool.or_eq_false_iff, Bool.and_eq_false_iff,
    beq_eq_false_iff_ne, decide_eq_false_iff_not, UInt8.le_iff_toNat_le, ne_eq, ← UInt8.toNat_inj,
    UInt8.toNat_ofNat] at digit ⊢
  omega

section

variable {sign digits : Text} (row : Row digits)

include row

theorem sign_shorter : sign.length < (sign ++ digits).length := by
  have some_digit : 0 < digits.length := List.length_pos_iff.mpr row.nonempty
  rw [List.length_append]
  omega

theorem seek_row :
    Text.seek Text.isDigit (sign ++ digits) sign.length = (sign ++ digits).length := by
  have behind : (sign ++ digits).drop sign.length = digits := List.drop_left
  refine (Text.seek_end_iff _ _ _ (Nat.le_of_lt (sign_shorter row))).mpr ?_
  rw [behind]
  exact row.bytes

variable (signs : Sign sign)

include signs

theorem opening_of_row :
    ∃ byte rest, sign ++ digits = byte :: rest ∧ Text.isSpace byte = false ∧
      (if isSign byte then 1 else 0) = sign.length ∧ (byte = minus ↔ sign = [minus]) := by
  obtain ⟨byte, rest, rfl⟩ := List.exists_cons_of_ne_nil row.nonempty
  obtain ⟨noSpace, noSign, noMinus⟩ := digit_is_plain (row.bytes byte (by simp))
  rcases signs with rfl | rfl | rfl
  · exact ⟨byte, rest, rfl, noSpace, by simp [noSign], by simp [noMinus]⟩
  · exact ⟨plus, byte :: rest, rfl, rfl, by decide, by decide⟩
  · exact ⟨minus, byte :: rest, rfl, rfl, by decide, by decide⟩

theorem numeral_of_row : Numeral (sign ++ digits) (signed sign (value digits)) := by
  have spelled := digits_of_row digits row.nonempty row.bytes
  rcases signs with rfl | rfl | rfl
  · exact .unsigned digits _ spelled
  · exact .positive digits _ spelled
  · exact .negative digits _ spelled

theorem convert_row :
    convert? (sign ++ digits) =
      (fitted? (signed sign (value digits))).map fun word => ⟨word, (sign ++ digits).length⟩ := by
  obtain ⟨byte, rest, shape, noSpace, signSize, minus_iff⟩ := opening_of_row row signs
  have head : (sign ++ digits)[0]? = some byte := by rw [shape, List.getElem?_cons_zero]
  have start : Text.seek Text.isSpace (sign ++ digits) 0 = 0 :=
    Text.seek_here _ _ _ fun other found => by
      rw [head, Option.mem_some] at found
      rw [← found, noSpace]
  have behind : (sign ++ digits).drop sign.length = digits := List.drop_left
  have longer : (sign ++ digits).length ≠ sign.length := Nat.ne_of_gt (sign_shorter row)
  simp only [convert?, start, head, Option.any_some, Nat.zero_add, signSize, seek_row row,
    if_neg longer, Text.slice_end, behind, Option.some.injEq, minus_iff]
  rfl

theorem read_row (held : Word) :
    readInto (sign ++ digits) held =
      match fitted? (signed sign (value digits)) with
      | some word => (true, word)
      | none => (false, held) := by
  obtain ⟨byte, rest, shape, -, signSize, -⟩ := opening_of_row row signs
  have stop : Text.seek Text.isDigit (sign ++ digits) sign.length = (sign ++ digits).length :=
    seek_row row
  have converted := convert_row row signs
  have longer : ¬(sign ++ digits).length ≤ sign.length := Nat.not_le.mpr (sign_shorter row)
  rw [shape] at stop converted longer ⊢
  simp only [readInto, signSize, stop, converted, if_neg longer]
  cases fitted? (signed sign (value digits)) with
  | none => simp
  | some word => simp

end

theorem row_behind {token : Text} {first : Nat} (some_byte : first < token.length)
    (stop : Text.seek Text.isDigit token first = token.length) : Row (token.drop first) := by
  refine ⟨?_, (Text.seek_end_iff _ _ _ (Nat.le_of_lt some_byte)).mp stop⟩
  rw [ne_eq, List.drop_eq_nil_iff]
  exact Nat.not_le.mpr some_byte

theorem row_of_read {token : Text} {held : Word} (read : readInto token held ≠ (false, held)) :
    ∃ sign digits, Sign sign ∧ Row digits ∧ token = sign ++ digits := by
  cases token with
  | nil => exact absurd rfl read
  | cons byte rest =>
      simp only [readInto] at read
      generalize signSize : (if isSign byte = true then 1 else 0) = first at read
      split at read
      · exact absurd rfl read
      · next longer =>
          split at read
          · exact absurd rfl read
          · next stop =>
              have row := row_behind (Nat.lt_of_not_le longer) (Decidable.not_not.mp stop)
              by_cases signed : isSign byte = true
              · rw [← signSize, if_pos signed] at row
                have sign : Sign [byte] := .inr (by simpa [isSign] using signed)
                exact ⟨[byte], rest, sign, row, rfl⟩
              · rw [← signSize, if_neg signed] at row
                exact ⟨[], byte :: rest, .inl rfl, row, rfl⟩

theorem row_of_numeral {token : Text} {number : Int} (numeral : Numeral token number) :
    ∃ sign digits, Sign sign ∧ Row digits ∧ token = sign ++ digits := by
  have row {digits : Text} {magnitude : Nat} (spelled : Digits digits magnitude) : Row digits :=
    ⟨(digits_are_digits spelled).1, (digits_are_digits spelled).2⟩
  cases numeral with
  | unsigned _ _ spelled => exact ⟨[], token, .inl rfl, row spelled, rfl⟩
  | positive digits _ spelled => exact ⟨[plus], digits, .inr (.inl rfl), row spelled, rfl⟩
  | negative digits _ spelled => exact ⟨[minus], digits, .inr (.inr rfl), row spelled, rfl⟩

/-- The reader delivers the word of a literal and nothing for any other text. -/
theorem read_into (token : Text) (held : Word) :
    readInto token held =
      match toWord? token with
      | some word => (true, word)
      | none => (false, held) := by
  by_cases shaped : ∃ sign digits, Sign sign ∧ Row digits ∧ token = sign ++ digits
  · obtain ⟨sign, digits, signs, row, rfl⟩ := shaped
    have number := (numeral_iff _ _).mpr (numeral_of_row row signs)
    have word : toWord? (sign ++ digits) = fitted? (signed sign (value digits)) := by
      rw [toWord?, number, Option.bind_some]
      rfl
    rw [read_row row signs held, word]
    rfl
  · have untouched : readInto token held = (false, held) :=
      Decidable.not_not.mp (mt row_of_read shaped)
    have refused : toInt? token = none := by
      cases read : toInt? token with
      | none => rfl
      | some number => exact absurd (row_of_numeral ((numeral_iff _ _).mp read)) shaped
    rw [untouched, toWord?, refused, Option.bind_none]

theorem read_into_iff (token : Text) (held word : Word) :
    readInto token held = (true, word) ↔ Literal token word := by
  rw [← literal_iff, read_into]
  cases toWord? token <;> simp

theorem word_of_read {token : Text} {held word : Word} (read : readInto token held = (true, word)) :
    toWord? token = some word :=
  (literal_iff token word).mpr ((read_into_iff token held word).mp read)

theorem refused_of_read {token : Text} {held other : Word}
    (read : readInto token held = (false, other)) : toWord? token = none := by
  rw [read_into] at read
  cases found : toWord? token with
  | none => rfl
  | some word => simp [found] at read

theorem accepted_iff (token : Text) :
    (∃ word, toWord? token = some word) ↔
      ∃ number, Numeral token number ∧ -2 ^ 63 ≤ number ∧ number ≤ 2 ^ 63 - 1 := by
  constructor
  · rintro ⟨word, read⟩
    exact ⟨word.toInt, (literal_iff token word).mp read, word.minValue_le_toInt, word.toInt_le⟩
  · rintro ⟨number, numeral, lower, upper⟩
    refine ⟨Int64.ofInt number, (literal_iff token _).mpr ?_⟩
    rw [Literal, Int64.toInt_ofInt_of_le lower (by omega)]
    exact numeral

/-- What reading a token comes to, and what it leaves in a place that held a word. -/
structure Reads (token : Text) (held : Word) : Prop where
  accepted : (∃ word, toWord? token = some word) ↔
    ∃ number, Numeral token number ∧ -2 ^ 63 ≤ number ∧ number ≤ 2 ^ 63 - 1
  exact (word : Word) : toWord? token = some word ↔ Numeral token word.toInt
  delivered (word : Word) : readInto token held = (true, word) ↔ Numeral token word.toInt
  untouched : (∀ word : Word, ¬Numeral token word.toInt) → readInto token held = (false, held)
  back (word : Word) :
    toWord? (ofInt word.toInt) = some word ∧ readInto (ofInt word.toInt) held = (true, word)

/-- The literals of words are read with their exact values; a text that is none is refused and
leaves the place as it was. -/
theorem literals_are_read (token : Text) (held : Word) : Reads token held where
  accepted := accepted_iff token
  exact word := literal_iff token word
  delivered word := read_into_iff token held word
  untouched none := by
    have refused : toWord? token = Option.none := by
      cases read : toWord? token with
      | none => rfl
      | some word => exact absurd ((literal_iff token word).mp read) (none word)
    rw [read_into, refused]
  back word := by
    have read := to_word_of_int word
    exact ⟨read, by rw [read_into, read]⟩

end StackMachine.Decimal

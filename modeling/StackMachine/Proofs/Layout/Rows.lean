import Mathlib.Data.List.Chain
import StackMachine.Proofs.Decimal
import StackMachine.Proofs.Source.Rows

/-!
# Levels of rendered lines

A line of rendered source is its level and the text after the blanks of that level. The lines of a
written text are read back as the rows that the edits give, for texts that begin with no blank. What
a language asks of its blocks is said of rows and their neighbours, and edits that keep their level
and satisfy it can be put one after the other.
-/

namespace StackMachine.Layout

set_option autoImplicit false

open StackMachine.Render

structure Row where
  level : Nat
  text : Text
deriving DecidableEq, Repr

def blank : UInt8 := 32

def closeBrace : UInt8 := 125

namespace Row

/-- A line whose leading blanks make whole levels. -/
def ofLine? (line : Text) : Option Row :=
  let margin := (line.takeWhile (· == blank)).length
  if margin % indentWidth = 0 then some ⟨margin / indentWidth, line.drop margin⟩ else none

def isWritten (row : Row) : Bool := row.text ≠ []

def returns (row : Row) : Bool := (Text.ascii "return ").isPrefixOf row.text

end Row

/-- The lines of a text. -/
def rowsOf? (text : Text) : Option (List Row) := (Text.lines text).mapM Row.ofLine?

def allRows : Nat → List Edit → List Row
  | _, [] => []
  | level, .line text :: rest => ⟨level, text⟩ :: allRows level rest
  | level, .blank :: rest => ⟨0, []⟩ :: allRows level rest
  | level, .indent :: rest => allRows (level + 1) rest
  | level, .dedent :: rest => allRows (level - 1) rest

def rowsAt : Nat → List Edit → List Row
  | _, [] => []
  | level, .line text :: rest => ⟨level, text⟩ :: rowsAt level rest
  | level, .blank :: rest => rowsAt level rest
  | level, .indent :: rest => rowsAt (level + 1) rest
  | level, .dedent :: rest => rowsAt (level - 1) rest

theorem rows_at_line (level : Nat) (text : Text) :
    rowsAt level [.line text] = [⟨level, text⟩] := rfl

theorem rows_at_append (level : Nat) (front back : List Edit) :
    rowsAt level (front ++ back) = rowsAt level front ++ rowsAt (levelAfter level front) back := by
  induction front generalizing level with
  | nil => rfl
  | cons edit front ih => cases edit <;> simp [rowsAt, ih, levelAfter, Edit.levelAfter]

/-- A text that shows its level: it begins with something other than a blank, and stays on its
line. -/
structure Flush (text : Text) : Prop where
  clean : Text.newline ∉ text
  head : ∃ byte rest, text = byte :: rest ∧ byte ≠ blank

def Admitted (blanks : Prop) : Edit → Prop
  | .line text => Flush text
  | .blank => blanks
  | .indent | .dedent => True

theorem of_line_indented (level : Nat) {text : Text} (flush : Flush text) :
    Row.ofLine? (List.replicate (level * indentWidth) blank ++ text) = some ⟨level, text⟩ := by
  obtain ⟨byte, rest, rfl, shown⟩ := flush.head
  have margin : (List.replicate (level * indentWidth) blank ++ byte :: rest).takeWhile
      (· == blank) = List.replicate (level * indentWidth) blank := by
    rw [List.takeWhile_append_of_pos (by simp), List.takeWhile_cons_of_neg (by simpa using shown),
      List.append_nil]
  have whole : level * indentWidth / indentWidth = level :=
    Nat.mul_div_cancel level (by decide)
  rw [Row.ofLine?, margin]
  simp [whole]

example : Row.ofLine? "        pc = 1" = some ⟨2, "pc = 1"⟩ := by decide

section

variable {blanks : Prop} {edits : List Edit} (admitted : ∀ edit ∈ edits, Admitted blanks edit)

include admitted

theorem rows_clean (level : Nat) : ∀ row ∈ rows indentWidth level edits, Text.newline ∉ row := by
  induction edits generalizing level with
  | nil => simp [rows]
  | cons edit edits ih =>
      obtain ⟨here, later⟩ := List.forall_mem_cons.mp admitted
      cases edit with
      | line text =>
          rw [rows, List.forall_mem_cons]
          have margin : Text.newline ∉ List.replicate (level * indentWidth) (32 : UInt8) :=
            fun member => absurd (List.eq_of_mem_replicate member) (by decide)
          exact ⟨by simp [margin, here.clean], ih later level⟩
      | blank =>
          rw [rows, List.forall_mem_cons]
          exact ⟨by simp, ih later level⟩
      | indent => exact ih later (level + 1)
      | dedent => exact ih later (level - 1)

theorem rows_read (level : Nat) :
    (rows indentWidth level edits).mapM Row.ofLine? = some (allRows level edits) := by
  induction edits generalizing level with
  | nil => rfl
  | cons edit edits ih =>
      obtain ⟨here, later⟩ := List.forall_mem_cons.mp admitted
      cases edit with
      | line text =>
          have read := of_line_indented level here
          rw [rows, List.mapM_cons, ih later level, allRows]
          change (Row.ofLine? (List.replicate (level * indentWidth) blank ++ text)).bind _ = _
          rw [read]
          rfl
      | blank =>
          rw [rows, List.mapM_cons, ih later level]
          rfl
      | indent => exact ih later (level + 1)
      | dedent => exact ih later (level - 1)

theorem rows_of_write : rowsOf? (write indentWidth 0 edits) = some (allRows 0 edits) := by
  rw [rowsOf?, write_rows, Text.lines_terminated _ (rows_clean admitted 0), rows_read admitted]

theorem written_rows (level : Nat) :
    (allRows level edits).filter Row.isWritten = rowsAt level edits := by
  induction edits generalizing level with
  | nil => rfl
  | cons edit edits ih =>
      obtain ⟨here, later⟩ := List.forall_mem_cons.mp admitted
      cases edit with
      | line text =>
          obtain ⟨_, _, rfl, _⟩ := here.head
          rw [allRows, List.filter_cons_of_pos (by rfl), ih later level]
          rfl
      | blank =>
          rw [allRows, List.filter_cons_of_neg (by decide), ih later level]
          rfl
      | indent => exact ih later (level + 1)
      | dedent => exact ih later (level - 1)

end

theorem all_rows_written {edits : List Edit} (admitted : ∀ edit ∈ edits, Admitted False edit)
    (level : Nat) : allRows level edits = rowsAt level edits := by
  induction edits generalizing level with
  | nil => rfl
  | cons edit edits ih =>
      obtain ⟨here, later⟩ := List.forall_mem_cons.mp admitted
      cases edit with
      | line text => rw [allRows, ih later level, rowsAt]
      | blank => exact here.elim
      | indent => exact ih later (level + 1)
      | dedent => exact ih later (level - 1)

theorem ends_append {back : Text} {final : UInt8} (front : Text)
    (ends : back.getLast? = some final) : (front ++ back).getLast? = some final := by
  rw [List.getLast?_append, ends]
  rfl

theorem int_clean (value : Int) : Text.newline ∉ Decimal.ofInt value :=
  Decimal.not_mem_of_int (by decide) (by decide) value

theorem nat_clean (value : Nat) : Text.newline ∉ Decimal.ofNat value :=
  Decimal.not_mem_of_nat (by decide) value

/-- The bytes that a blank, a closing brace, a return and an alternative begin with. -/
def tellingBytes : Text := [blank, closeBrace, 114, 101]

def beginsPlainly : Text → Bool
  | [] => false
  | byte :: _ => !tellingBytes.contains byte

theorem begins_plainly_iff {text : Text} :
    beginsPlainly text = true ↔
      ∃ byte rest, text = byte :: rest ∧ ∀ mark ∈ tellingBytes, byte ≠ mark := by
  cases text with
  | nil => simp [beginsPlainly]
  | cons byte rest =>
      constructor
      · intro begins
        refine ⟨byte, rest, rfl, ?_⟩
        rintro mark member rfl
        simp [beginsPlainly, member] at begins
      · rintro ⟨_, _, same, plain⟩
        obtain ⟨rfl, rfl⟩ := List.cons.inj same
        have absent : byte ∉ tellingBytes := fun member => plain byte member rfl
        simp [beginsPlainly, absent]

theorem begins_plainly_append {front : Text} (begins : beginsPlainly front = true) (back : Text) :
    beginsPlainly (front ++ back) = true := by
  cases front with
  | nil => cases begins
  | cons => exact begins

theorem begins_plainly_of_int (number : Int) : beginsPlainly (Decimal.ofInt number) = true := by
  obtain ⟨byte, rest, shape⟩ := List.exists_cons_of_ne_nil (Decimal.of_int_ne_nil number)
  refine begins_plainly_iff.mpr ⟨byte, rest, shape, ?_⟩
  rintro mark member rfl
  have absent : byte ∉ Decimal.ofInt number := by
    have noDigit : ∀ other ∈ tellingBytes, Text.isDigit other = false ∧ other ≠ 45 := by
      decide +kernel
    exact Decimal.not_mem_of_int (noDigit byte member).1 (noDigit byte member).2 number
  exact absent (by rw [shape]; exact List.mem_cons_self)

/-- A text that begins plainly does not begin with a word that a telling byte begins. -/
theorem no_prefix_of_plain {text word : Text} {mark : UInt8} (begins : beginsPlainly text = true)
    (marked : word.head? = some mark) (among : mark ∈ tellingBytes) : word.isPrefixOf text = false := by
  obtain ⟨byte, rest, rfl, plain⟩ := begins_plainly_iff.mp begins
  obtain ⟨tail, rfl⟩ := List.head?_eq_some_iff.mp marked
  have other : (mark == byte) = false := by simpa using (plain mark among).symm
  rw [List.isPrefixOf_cons_cons, other, Bool.false_and]

theorem returns_of_plain {text : Text} (begins : beginsPlainly text = true) :
    (Text.ascii "return ").isPrefixOf text = false :=
  no_prefix_of_plain begins rfl (by decide)

/-- What a language asks of the rows in a block: which row may follow which, which rows may begin or
end a block at a level, and after which one the block may go on. -/
structure Rules where
  blanks : Prop
  follows : Row → Row → Prop
  begins : Nat → Row → Prop
  ends : Nat → Row → Prop
  passes : Nat → Row → Prop
  /-- What is asked of rows that are not neighbours. -/
  sound : List Row → Prop
  sound_nil : sound []
  sound_append : ∀ front back, sound front → sound back → sound (front ++ back)
  follows_of_passes : ∀ level row next, passes level row → begins level next → follows row next

variable {rules : Rules}

/-- Rows of whole statements at a level. -/
structure Segment (rules : Rules) (level : Nat) (rows : List Row) : Prop where
  deep : ∀ row ∈ rows, level ≤ row.level
  chain : rows.IsChain rules.follows
  begins : ∀ row ∈ rows.head?, rules.begins level row
  ends : ∀ row ∈ rows.getLast?, rules.ends level row

def Passes (rules : Rules) (level : Nat) (rows : List Row) : Prop :=
  ∀ row ∈ rows.getLast?, rules.passes level row

theorem segment_nil (level : Nat) : Segment rules level [] :=
  ⟨by simp, List.IsChain.nil, by simp, by simp⟩

theorem segment_append {level : Nat} {front back : List Row} (first : Segment rules level front)
    (passes : Passes rules level front) (second : Segment rules level back) :
    Segment rules level (front ++ back) where
  deep row member := (List.mem_append.mp member).elim (first.deep row) (second.deep row)
  chain := first.chain.append second.chain fun row last next head =>
    rules.follows_of_passes level row next (passes row last) (second.begins next head)
  begins row head := by
    cases front with
    | nil => exact second.begins row head
    | cons => exact first.begins row head
  ends row last := by
    rw [List.getLast?_append] at last
    cases ended : back.getLast? with
    | none =>
        rw [ended] at last
        exact first.ends row last
    | some other =>
        rw [ended] at last
        exact second.ends row (ended.trans last)

theorem passes_append {level : Nat} {front back : List Row} (first : Passes rules level front)
    (second : Passes rules level back) : Passes rules level (front ++ back) := by
  intro row last
  rw [List.getLast?_append] at last
  cases ended : back.getLast? with
  | none =>
      rw [ended] at last
      exact first row last
  | some other =>
      rw [ended] at last
      exact second row (ended.trans last)

/-- Edits that keep their level and write whole statements at it. -/
structure Block (rules : Rules) (edits : List Edit) : Prop where
  level : ∀ level, levelAfter level edits = level
  admitted : ∀ edit ∈ edits, Admitted rules.blanks edit
  rows : ∀ level, Segment rules level (rowsAt level edits)
  sound : ∀ level, rules.sound (rowsAt level edits)

/-- Another statement may stand after the edits. -/
def GoesOn (rules : Rules) (edits : List Edit) : Prop :=
  ∀ level, Passes rules level (rowsAt level edits)

/-- Edits of one statement. Another one may stand after it unless it returns. -/
structure Statement (rules : Rules) (edits : List Edit) (returns : Bool) : Prop where
  block : Block rules edits
  goesOn : returns = false → GoesOn rules edits

theorem block_nil : Block rules [] :=
  ⟨fun _ => rfl, by simp, segment_nil, fun _ => rules.sound_nil⟩

theorem block_append {front back : List Edit} (first : Statement rules front false)
    (second : Block rules back) : Block rules (front ++ back) where
  level level := by rw [level_after_append, first.block.level, second.level]
  admitted edit member :=
    (List.mem_append.mp member).elim (first.block.admitted edit) (second.admitted edit)
  rows level := by
    rw [rows_at_append, first.block.level]
    exact segment_append (first.block.rows level) (first.goesOn rfl level) (second.rows level)
  sound level := by
    rw [rows_at_append, first.block.level]
    exact rules.sound_append _ _ (first.block.sound level) (second.sound level)

theorem statement_append {front back : List Edit} {returns : Bool}
    (first : Statement rules front false) (second : Statement rules back returns) :
    Statement rules (front ++ back) returns where
  block := block_append first second.block
  goesOn noReturn level := by
    rw [rows_at_append, first.block.level]
    exact passes_append (first.goesOn rfl level) (second.goesOn noReturn level)

/-- Only the last statement may return. -/
def returnsLast {Item : Type} (returns : Item → Bool) (items : List Item) : Bool :=
  items.dropLast.all fun item => !returns item

theorem block_sequence {Item : Type} (edits : Item → List Edit) (returns : Item → Bool)
    (items : List Item) (last : returnsLast returns items = true)
    (statements : ∀ item ∈ items, Statement rules (edits item) (returns item)) :
    Block rules (items.flatMap edits) := by
  induction items with
  | nil => exact block_nil
  | cons item items ih =>
      obtain ⟨here, later⟩ := List.forall_mem_cons.mp statements
      rw [List.flatMap_cons]
      cases items with
      | nil => simpa using here.block
      | cons next items =>
          rw [returnsLast, List.dropLast_cons_cons, List.all_cons, Bool.and_eq_true] at last
          have noReturn : returns item = false := by simpa using last.1
          rw [noReturn] at here
          exact block_append here (ih last.2 later)

theorem statement_sequence {Item : Type} (edits : Item → List Edit) (items : List Item)
    (statements : ∀ item ∈ items, Statement rules (edits item) false) :
    Statement rules (items.flatMap edits) false := by
  induction items with
  | nil => exact ⟨block_nil, fun _ _ _ member => by cases member⟩
  | cons item items ih =>
      obtain ⟨here, later⟩ := List.forall_mem_cons.mp statements
      rw [List.flatMap_cons]
      exact statement_append here (ih later)

theorem rows_at_nested {body : List Edit} (kept : ∀ level, levelAfter level body = level)
    (level : Nat) : rowsAt level (Edit.nested body) = rowsAt (level + 1) body := by
  have entered : levelAfter level (.indent :: body) = level + 1 := kept (level + 1)
  rw [Edit.nested, rows_at_append, entered]
  simp [rowsAt]

theorem level_after_nested {body : List Edit} (kept : ∀ level, levelAfter level body = level)
    (level : Nat) : levelAfter level (Edit.nested body) = level := by
  have entered : levelAfter level (.indent :: body) = level + 1 := kept (level + 1)
  rw [Edit.nested, level_after_append, entered]
  rfl

theorem admitted_nested {blanks : Prop} {body : List Edit}
    (admitted : ∀ edit ∈ body, Admitted blanks edit) :
    ∀ edit ∈ Edit.nested body, Admitted blanks edit := by
  intro edit member
  simp only [Edit.nested, List.cons_append, List.mem_cons, List.mem_append, List.not_mem_nil,
    or_false] at member
  rcases member with rfl | inside | rfl
  · trivial
  · exact admitted edit inside
  · trivial

section

variable {head : Text} {body : List Edit} (block : Block rules body)

include block

theorem rows_at_header (level : Nat) :
    rowsAt level (.line head :: Edit.nested body) = ⟨level, head⟩ :: rowsAt (level + 1) body := by
  rw [rowsAt, rows_at_nested block.level]

theorem level_after_header (level : Nat) :
    levelAfter level (.line head :: Edit.nested body) = level :=
  level_after_nested block.level level

theorem admitted_header (flush : Flush head) :
    ∀ edit ∈ .line head :: Edit.nested body, Admitted rules.blanks edit :=
  List.forall_mem_cons.mpr ⟨flush, admitted_nested block.admitted⟩

theorem deep_header (level : Nat) :
    ∀ row ∈ Row.mk level head :: rowsAt (level + 1) body, level ≤ row.level :=
  List.forall_mem_cons.mpr ⟨Nat.le_refl level, fun row member =>
    Nat.le_of_succ_le ((block.rows (level + 1)).deep row member)⟩

end

end StackMachine.Layout

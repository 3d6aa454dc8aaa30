import StackMachine.Proofs.Layout.Rows

/-!
# Blocks by indentation

A line that ends with a colon heads a block, and the lines below it are one level deeper. An
alternative looks further back than its neighbour: it stands below the block of the condition that
it belongs to, so conditionals are followed from the first branch to the last alternative.
-/

namespace StackMachine.Layout

set_option autoImplicit false

open StackMachine.Render

def colon : UInt8 := 58

namespace Row

def heads (row : Row) : Bool := row.text.getLast? = some colon

/-- The line begins with a condition, of a first branch or of a later one. -/
def branches (row : Row) : Bool :=
  (Text.ascii "if ").isPrefixOf row.text || (Text.ascii "elif ").isPrefixOf row.text

def isAlternative (row : Row) : Bool :=
  (Text.ascii "elif ").isPrefixOf row.text || (Text.ascii "else:").isPrefixOf row.text

end Row

/-- The rows end with the block of a condition at the level. -/
def EndsBranch (level : Nat) (rows : List Row) : Prop :=
  ∃ before header body, rows = before ++ header :: body ∧ header.branches = true ∧
    header.heads = true ∧ header.level = level ∧ body ≠ [] ∧ ∀ row ∈ body, level < row.level

/-- Every alternative closes the block of a condition at its own level. -/
def Paired (rows : List Row) : Prop :=
  ∀ front row back, rows = front ++ row :: back → row.isAlternative = true →
    EndsBranch row.level front

structure Indented (rows : List Row) : Prop where
  begins : ∀ row ∈ rows.head?, row.level = 0
  /-- A line that heads a block is followed by one that is one level deeper. -/
  headed : ∀ front row back, rows = front ++ row :: back → row.heads = true →
    ∃ next rest, back = next :: rest ∧ next.level = row.level + 1
  /-- No other line is followed by a deeper one. -/
  flat : ∀ front row next back, rows = front ++ row :: next :: back → row.heads = false →
    next.level ≤ row.level
  paired : Paired rows
  /-- A line after a return leaves its block. -/
  returns : ∀ front row next back, rows = front ++ row :: next :: back → row.returns = true →
    next.level < row.level

theorem ends_branch_append {level : Nat} {rows : List Row} (front : List Row)
    (ends : EndsBranch level rows) : EndsBranch level (front ++ rows) := by
  obtain ⟨before, header, body, rfl, rest⟩ := ends
  exact ⟨front ++ before, header, body, by rw [List.append_assoc], rest⟩

/-- The condition of an alternative stands on the same side of a cut, unless the alternative comes
first. -/
theorem paired_append {front back : List Row} (first : Paired front)
    (second : ∀ before row after, back = before ++ row :: after → row.isAlternative = true →
      EndsBranch row.level (front ++ before)) : Paired (front ++ back) := by
  intro before row after split alternative
  rcases List.append_eq_append_iff.mp split with ⟨between, rfl, rest⟩ | ⟨between, rfl, rest⟩
  · exact second between row after rest alternative
  · cases between with
    | nil =>
        rw [List.nil_append] at rest
        simpa using second [] row after rest.symm alternative
    | cons first between =>
        obtain ⟨rfl, rfl⟩ := List.cons.inj rest
        exact first before row between rfl alternative

def indentation : Rules where
  blanks := True
  follows row next := (row.heads = true → next.level = row.level + 1) ∧
    (row.heads = false → next.level ≤ row.level) ∧ (row.returns = true → next.level < row.level)
  begins level row := row.level = level
  ends _ row := row.heads = false
  passes level row := level ≤ row.level ∧ row.heads = false ∧
    (row.returns = true → level < row.level)
  sound := Paired
  sound_nil front row back split := by simp at split
  sound_append front back first second := by
    refine paired_append first fun before row after split alternative => ?_
    exact ends_branch_append front (second before row after split alternative)
  follows_of_passes level row next passes begins := by
    obtain ⟨deep, noBlock, returned⟩ := passes
    obtain rfl : next.level = level := begins
    refine ⟨fun heads => ?_, fun _ => deep, returned⟩
    rw [noBlock] at heads
    cases heads

theorem indented_of_segment {rows : List Row} (segment : Segment indentation 0 rows)
    (paired : Paired rows) : Indented rows := by
  have follows {front back : List Row} {row next : Row}
      (split : rows = front ++ row :: next :: back) : indentation.follows row next := by
    have chain := split ▸ segment.chain
    have rest := (List.isChain_append.mp chain).2.1
    exact (List.isChain_cons_cons.mp rest).1
  constructor
  case begins => exact segment.begins
  case headed =>
    intro front row back split heads
    cases back with
    | nil =>
        have noBlock : row.heads = false := segment.ends row (by simp [split])
        rw [heads] at noBlock
        cases noBlock
    | cons next rest => exact ⟨next, rest, rfl, (follows split).1 heads⟩
  case flat =>
    intro front row next back split
    exact (follows split).2.1
  case paired => exact paired
  case returns =>
    intro front row next back split
    exact (follows split).2.2

structure Marks (text : Text) (heads returns alternative : Bool) : Prop where
  flush : Flush text
  heads : ∀ level, (Row.mk level text).heads = heads
  returns : ∀ level, (Row.mk level text).returns = returns
  alternative : ∀ level, (Row.mk level text).isAlternative = alternative

theorem no_heading {text : Text} (absent : colon ∉ text) : text.getLast? ≠ some colon :=
  fun ends => absent (List.mem_of_getLast? ends)

theorem marks_of_begins {text : Text} {byte : UInt8} {heads : Bool} (clean : Text.newline ∉ text)
    (begins : text.head? = some byte) (shown : byte ≠ blank)
    (last : decide (text.getLast? = some colon) = heads) :
    Marks text heads ((Text.ascii "return ").isPrefixOf text)
      ((Text.ascii "elif ").isPrefixOf text || (Text.ascii "else:").isPrefixOf text) := by
  obtain ⟨rest, rfl⟩ := List.head?_eq_some_iff.mp begins
  exact ⟨⟨clean, byte, rest, rfl, shown⟩, fun _ => last, fun _ => rfl, fun _ => rfl⟩

theorem marks_plain {text : Text} {heads : Bool} (clean : Text.newline ∉ text)
    (begins : beginsPlainly text = true) (last : decide (text.getLast? = some colon) = heads) :
    Marks text heads false false := by
  obtain ⟨byte, rest, rfl, plain⟩ := begins_plainly_iff.mp begins
  have marks := marks_of_begins clean rfl (plain blank (by decide)) last
  have noBranch : (Text.ascii "elif ").isPrefixOf (byte :: rest) = false :=
    no_prefix_of_plain begins rfl (by decide)
  have noLast : (Text.ascii "else:").isPrefixOf (byte :: rest) = false :=
    no_prefix_of_plain begins rfl (by decide)
  rwa [returns_of_plain begins, noBranch, noLast, Bool.false_or] at marks

theorem marks_return {text : Text} (clean : Text.newline ∉ text)
    (begins : (Text.ascii "return ").isPrefixOf text = true)
    (last : decide (text.getLast? = some colon) = false) : Marks text false true false := by
  obtain ⟨rest, rfl⟩ := List.isPrefixOf_iff_prefix.mp begins
  have marks := marks_of_begins clean rfl (by decide) last
  rwa [begins] at marks

theorem paired_line {row : Row} (alternative : row.isAlternative = false) : Paired [row] := by
  intro front other back split found
  obtain ⟨rfl, rfl, rfl⟩ : front = [] ∧ row = other ∧ back = [] := by
    cases front <;> simp_all
  rw [alternative] at found
  cases found

theorem indented_line {text : Text} {returns : Bool} (marks : Marks text false returns false) :
    Statement indentation [.line text] returns where
  block := by
    refine ⟨fun _ => rfl, fun edit member => ?_, fun level => ?_, fun level => ?_⟩
    · rw [List.mem_singleton.mp member]
      exact marks.flush
    · rw [rows_at_line]
      constructor
      case deep => simp
      case chain => exact List.isChain_singleton _
      case begins => simp [indentation]
      case ends => simpa [indentation] using marks.heads level
    · exact paired_line (marks.alternative level)
  goesOn noReturn level row last := by
    obtain rfl : Row.mk level text = row := by simpa [rows_at_line] using last
    refine ⟨Nat.le_refl level, marks.heads level, fun returned => ?_⟩
    rw [marks.returns level, noReturn] at returned
    cases returned

structure Body (edits : List Edit) : Prop where
  block : Block indentation edits
  filled : ∀ level, rowsAt level edits ≠ []

theorem segment_headed {level : Nat} (header : Row) {body : List Row} (here : header.level = level)
    (heads : header.heads = true) (noReturn : header.returns = false)
    (segment : Segment indentation (level + 1) body) (filled : body ≠ []) :
    Segment indentation level (header :: body) ∧ Passes indentation level (header :: body) := by
  have deep : ∀ row ∈ body, level < row.level := segment.deep
  have last : (header :: body).getLast? = body.getLast? := by
    obtain ⟨first, rest, rfl⟩ := List.exists_cons_of_ne_nil filled
    rw [List.getLast?_cons_cons]
  have headed : Segment indentation level (header :: body) := by
    constructor
    case deep =>
      exact List.forall_mem_cons.mpr ⟨Nat.le_of_eq here.symm, fun row member =>
        Nat.le_of_lt (deep row member)⟩
    case chain =>
      refine List.isChain_cons.mpr ⟨fun next first => ?_, segment.chain⟩
      have inner : next.level = level + 1 := segment.begins next first
      refine ⟨fun _ => by rw [inner, here], fun noBlock => ?_, fun returned => ?_⟩
      · rw [heads] at noBlock
        cases noBlock
      · rw [noReturn] at returned
        cases returned
    case begins =>
      intro row first
      obtain rfl : header = row := by simpa using first
      exact here
    case ends =>
      rw [last]
      exact segment.ends
  -- A return may end the body: the row after it stands at the level of the header.
  refine ⟨headed, fun row final => ?_⟩
  rw [last] at final
  have inside := deep row (List.mem_of_getLast? final)
  exact ⟨Nat.le_of_lt inside, segment.ends row final, fun _ => inside⟩

section

variable {head : Text} {body : List Edit} {alternative : Bool} (filled : Body body)

include filled

theorem headed_rows (marks : Marks head true false alternative) (level : Nat) :
    Segment indentation level (rowsAt level (.line head :: Edit.nested body)) ∧
      Passes indentation level (rowsAt level (.line head :: Edit.nested body)) := by
  rw [rows_at_header filled.block]
  exact segment_headed ⟨level, head⟩ rfl (marks.heads level) (marks.returns level)
    (filled.block.rows (level + 1)) (filled.filled (level + 1))

theorem indented_header (marks : Marks head true false false) :
    Statement indentation (.line head :: Edit.nested body) false where
  block := by
    refine ⟨level_after_header filled.block, admitted_header filled.block marks.flush, ?_, ?_⟩
    · exact fun level => (headed_rows filled marks level).1
    · intro level
      rw [rows_at_header filled.block]
      exact indentation.sound_append [_] _ (paired_line (marks.alternative level))
        (filled.block.sound (level + 1))
  goesOn _ level := (headed_rows filled marks level).2

theorem ends_branch_header (marks : Marks head true false alternative)
    (branches : ∀ level, (Row.mk level head).branches = true) (level : Nat) :
    EndsBranch level (rowsAt level (.line head :: Edit.nested body)) := by
  rw [rows_at_header filled.block]
  exact ⟨[], ⟨level, head⟩, _, rfl, branches level, marks.heads level, rfl,
    filled.filled (level + 1), (filled.block.rows (level + 1)).deep⟩

end

structure Conditional (edits : List Edit) : Prop where
  statement : Statement indentation edits false
  branch : ∀ level, EndsBranch level (rowsAt level edits)

section

variable {head : Text} {body : List Edit} {front : List Edit} (filled : Body body)

include filled

theorem conditional_header (marks : Marks head true false false)
    (branches : ∀ level, (Row.mk level head).branches = true) :
    Conditional (.line head :: Edit.nested body) :=
  ⟨indented_header filled marks, ends_branch_header filled marks branches⟩

theorem indented_alternative (conditional : Conditional front)
    (marks : Marks head true false true) :
    Statement indentation (front ++ .line head :: Edit.nested body) false where
  block := by
    have block := conditional.statement.block
    have goesOn := conditional.statement.goesOn rfl
    refine ⟨fun level => ?_, fun edit member => ?_, fun level => ?_, fun level => ?_⟩
    · rw [level_after_append, block.level, level_after_header filled.block]
    · exact (List.mem_append.mp member).elim (block.admitted edit)
        (admitted_header filled.block marks.flush edit)
    · rw [rows_at_append, block.level]
      exact segment_append (block.rows level) (goesOn level) (headed_rows filled marks level).1
    · rw [rows_at_append, block.level, rows_at_header filled.block]
      -- Only the new header looks back at the conditional, the alternatives in its body do not.
      refine paired_append (block.sound level) fun before row after split alternative => ?_
      cases before with
      | nil =>
          obtain ⟨rfl, -⟩ := List.cons.inj split
          simpa using conditional.branch level
      | cons first before =>
          obtain ⟨rfl, inside⟩ := List.cons.inj split
          have paired := filled.block.sound (level + 1) before row after inside alternative
          exact ends_branch_append _ (ends_branch_append [_] paired)
  goesOn _ level := by
    rw [rows_at_append, conditional.statement.block.level]
    exact passes_append (conditional.statement.goesOn rfl level) (headed_rows filled marks level).2

theorem conditional_alternative (conditional : Conditional front)
    (marks : Marks head true false true)
    (branches : ∀ level, (Row.mk level head).branches = true) :
    Conditional (front ++ .line head :: Edit.nested body) where
  statement := indented_alternative filled conditional marks
  branch level := by
    rw [rows_at_append, conditional.statement.block.level]
    exact ends_branch_append _ (ends_branch_header filled marks branches level)

end

end StackMachine.Layout

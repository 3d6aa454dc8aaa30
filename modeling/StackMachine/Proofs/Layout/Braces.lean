import StackMachine.Proofs.Layout.Rows

/-!
# Blocks in braces

A brace at the end of a line opens a block and one at its beginning closes one. Rows whose running
depth is their level wherever they meet are braced as a whole: the depth at a row is then the level
of the row alone, whatever stands before it.
-/

namespace StackMachine.Layout

set_option autoImplicit false

open StackMachine.Render

def openBrace : UInt8 := 123

namespace Row

def opens (row : Row) : Bool := row.text.getLast? = some openBrace

def closes (row : Row) : Bool := row.text.head? = some closeBrace

/-- By how much a row changes the depth: first it may close a block, and last it may open one. -/
def gain (row : Row) : Int := row.opens.toNat - row.closes.toNat

end Row

/-- The running depth after some rows. -/
def depth : List Row → Int
  | [] => 0
  | row :: rest => row.gain + depth rest

/-- The depth at a row, after the brace that it closes and before the one that it opens. -/
def depthAt (front : List Row) (row : Row) : Int := depth front - row.closes.toNat

structure Braced (rows : List Row) : Prop where
  level : ∀ front row back, rows = front ++ row :: back → depthAt front row = row.level
  nonnegative : ∀ front back, rows = front ++ back → 0 ≤ depth front
  opened : ∃ row ∈ rows, row.opens = true
  /-- Once a block was opened, no row but the last is at depth zero. -/
  inside : ∀ front row back, rows = front ++ row :: back →
    (∃ opener ∈ front, opener.opens = true) → back ≠ [] → 0 < depthAt front row
  /-- The last row closes what was opened. -/
  last : ∀ front row, rows = front ++ [row] → row.closes = true ∧ depthAt front row = 0
  ended : depth rows = 0
  /-- A row after a return leaves its block. -/
  returns : ∀ front row next back, rows = front ++ row :: next :: back → row.returns = true →
    next.level < row.level

namespace Row

def before (row : Row) : Nat := row.level + row.closes.toNat

def after (row : Row) : Nat := row.level + row.opens.toNat

theorem gain_eq (row : Row) : row.gain = row.after - row.before := by
  rw [gain, after, before]
  omega

end Row

def braces : Rules where
  blanks := False
  follows row next := next.before = row.after ∧ (row.returns = true → next.level < row.level)
  begins level row := row.level = level ∧ row.closes = false
  ends level row := row.level = level ∧ row.opens = false
  passes level row := row.level = level ∧ row.opens = false ∧ row.returns = false
  sound _ := True
  sound_nil := trivial
  sound_append _ _ _ _ := trivial
  follows_of_passes level row next passes begins := by
    obtain ⟨here, noBlock, noReturn⟩ := passes
    obtain ⟨same, noClose⟩ := begins
    refine ⟨by simp [Row.before, Row.after, here, same, noBlock, noClose], fun returns => ?_⟩
    rw [noReturn] at returns
    cases returns

theorem depth_append (front back : List Row) : depth (front ++ back) = depth front + depth back := by
  induction front with
  | nil => simp [depth]
  | cons row front ih =>
      rw [List.cons_append, depth, depth, ih]
      omega

theorem depth_of_chain (front back : List Row) (row : Row) (start : Nat)
    (chain : (front ++ row :: back).IsChain braces.follows)
    (started : ∀ first ∈ (front ++ row :: back).head?, first.before = start) :
    start + depth front = row.before := by
  induction front generalizing start with
  | nil =>
      have same := started row rfl
      simp [depth, same]
  | cons first front ih =>
      have same := started first rfl
      rw [List.cons_append, List.isChain_cons] at chain
      have rest := ih first.after chain.2 fun next head => (chain.1 next head).1
      have gain := first.gain_eq
      rw [depth]
      omega

theorem mem_body_of_split {outside body front back : List Row} {opener close row other : Row}
    (split : outside ++ opener :: body ++ [close] = front ++ row :: back) (member : other ∈ front)
    (past : other ∉ outside) (more : back ≠ []) : row ∈ body := by
  -- Cut both ways of writing the rows before the last one.
  obtain ⟨middle, final, rfl⟩ := List.eq_nil_or_concat' back |>.resolve_left more
  rw [← List.cons_append, ← List.append_assoc] at split
  have same := List.append_inj_left' split rfl
  rcases List.append_eq_append_iff.mp same with ⟨between, rfl, rest⟩ | ⟨between, rfl, -⟩
  · cases between with
    | nil =>
        rw [List.append_nil] at member
        exact absurd member past
    | cons first between =>
        rw [List.cons_append, List.cons.injEq] at rest
        rw [rest.2]
        exact List.mem_append_right _ List.mem_cons_self
  · exact absurd (List.mem_append_left _ member) past

section

variable {rows : List Row} (segment : Segment braces 0 rows)

include segment

theorem depth_reached (front : List Row) (row : Row) (back : List Row)
    (split : rows = front ++ row :: back) : depth front = row.before := by
  have starts : ∀ first ∈ rows.head?, first.before = 0 := by
    intro first head
    obtain ⟨level, noClose⟩ := segment.begins first head
    simp [Row.before, level, noClose]
  have counted := depth_of_chain front back row 0 (split ▸ segment.chain) (split ▸ starts)
  omega

theorem depth_at_level (front : List Row) (row : Row) (back : List Row)
    (split : rows = front ++ row :: back) : depthAt front row = row.level := by
  have counted := depth_reached segment front row back split
  rw [Row.before] at counted
  rw [depthAt]
  omega

theorem depth_ended : depth rows = 0 := by
  rcases rows.eq_nil_or_concat' with rfl | ⟨front, close, rfl⟩
  · rfl
  · obtain ⟨outermost, noBlock⟩ := segment.ends close (by rw [List.getLast?_concat]; rfl)
    have counted := depth_reached segment front close [] rfl
    have gain := close.gain_eq
    have final : close.after = 0 := by simp [Row.after, outermost, noBlock]
    rw [depth_append, depth, depth]
    omega

theorem depth_nonnegative (front back : List Row) (split : rows = front ++ back) :
    0 ≤ depth front := by
  cases back with
  | nil =>
      rw [List.append_nil] at split
      rw [← split]
      exact Int.le_of_eq (depth_ended segment).symm
  | cons row back =>
      have counted := depth_reached segment front row back split
      omega

theorem level_behind_return (front : List Row) (row next : Row) (back : List Row)
    (split : rows = front ++ row :: next :: back) (returned : row.returns = true) :
    next.level < row.level := by
  have chain := split ▸ segment.chain
  have follows := (List.isChain_append.mp chain).2.1
  rw [List.isChain_cons_cons] at follows
  exact follows.1.2 returned

/-- The rows of one definition: what stands before it opens no block, and all rows between its first
and its last are deeper than these. -/
theorem braced_of_segment {outside body : List Row} {opener close : Row}
    (shape : rows = outside ++ opener :: body ++ [close])
    (flat : ∀ row ∈ outside, row.opens = false) (opens : opener.opens = true)
    (closes : close.closes = true) (deep : ∀ row ∈ body, 0 < row.level) : Braced rows where
  level := depth_at_level segment
  nonnegative := depth_nonnegative segment
  opened := ⟨opener, by simp [shape], opens⟩
  inside := by
    rintro front row back split ⟨other, member, opened⟩ more
    have past : other ∉ outside := by
      intro before
      rw [flat other before] at opened
      cases opened
    rw [depth_at_level segment front row back split]
    exact Int.natCast_pos.mpr (deep row (mem_body_of_split (shape ▸ split) member past more))
  last := by
    intro front row split
    obtain rfl : close = row :=
      List.singleton_inj.mp (List.append_inj_right' (shape.symm.trans split) rfl)
    obtain ⟨outermost, -⟩ := segment.ends close (by rw [shape, List.getLast?_concat]; rfl)
    refine ⟨closes, ?_⟩
    rw [depth_at_level segment front close [] split, outermost]
    rfl
  ended := depth_ended segment
  returns := level_behind_return segment

end

/-- How a text counts as a row. -/
structure Spells (text : Text) (closes opens returns : Bool) : Prop where
  flush : Flush text
  closes : ∀ level, (Row.mk level text).closes = closes
  opens : ∀ level, (Row.mk level text).opens = opens
  returns : ∀ level, (Row.mk level text).returns = returns

theorem spells_of_ends {text : Text} {byte final : UInt8} (clean : Text.newline ∉ text)
    (begins : text.head? = some byte) (shown : byte ≠ blank) (ends : text.getLast? = some final) :
    Spells text (byte = closeBrace) (final = openBrace)
      ((Text.ascii "return ").isPrefixOf text) := by
  obtain ⟨rest, rfl⟩ := List.head?_eq_some_iff.mp begins
  refine ⟨⟨clean, byte, rest, rfl, shown⟩, fun _ => ?_, fun _ => ?_, fun _ => rfl⟩
  · rw [Row.closes, begins]
    simp
  · rw [Row.opens, ends]
    simp

/-- A line that begins plainly opens a block if it ends with the brace. -/
theorem spells_plain {text : Text} {final : UInt8} (clean : Text.newline ∉ text)
    (begins : beginsPlainly text = true) (ends : text.getLast? = some final) :
    Spells text false (final = openBrace) false := by
  obtain ⟨byte, rest, rfl, plain⟩ := begins_plainly_iff.mp begins
  have spells := spells_of_ends clean rfl (plain blank (by decide)) ends
  rwa [returns_of_plain begins, decide_eq_false (plain closeBrace (by decide))] at spells

theorem spells_return {text : Text} {final : UInt8} (clean : Text.newline ∉ text)
    (begins : (Text.ascii "return ").isPrefixOf text = true) (ends : text.getLast? = some final)
    (noBlock : final ≠ openBrace) : Spells text false false true := by
  obtain ⟨rest, rfl⟩ := List.isPrefixOf_iff_prefix.mp begins
  have spells := spells_of_ends clean rfl (by decide) ends
  rwa [begins, decide_eq_false noBlock] at spells

theorem spells_turn {text : Text} (clean : Text.newline ∉ text)
    (begins : text.head? = some closeBrace) (ends : text.getLast? = some openBrace) :
    Spells text true true false := by
  have spells := spells_of_ends clean begins (by decide) ends
  obtain ⟨rest, rfl⟩ := List.head?_eq_some_iff.mp begins
  exact spells

theorem spells_close : Spells (Text.ascii "\x7d") true false false := by
  have clean : Text.newline ∉ Text.ascii "\x7d" := by decide
  have begins : (Text.ascii "\x7d").head? = some closeBrace := rfl
  have ends : (Text.ascii "\x7d").getLast? = some closeBrace := rfl
  exact spells_of_ends clean begins (by decide) ends

theorem statement_line {text : Text} {returns : Bool} (spells : Spells text false false returns) :
    Statement braces [.line text] returns where
  block := by
    refine ⟨fun _ => rfl, fun edit member => ?_, fun level => ?_, fun _ => trivial⟩
    · rw [List.mem_singleton.mp member]
      exact spells.flush
    · rw [rows_at_line]
      constructor
      case deep => simp
      case chain => exact List.isChain_singleton _
      case begins => simpa using ⟨rfl, spells.closes level⟩
      case ends => simpa using ⟨rfl, spells.opens level⟩
  goesOn noReturn level row last := by
    obtain rfl : Row.mk level text = row := by simpa [rows_at_line] using last
    exact ⟨rfl, spells.opens level, (spells.returns level).trans noReturn⟩

/-- The depth is left one above the level. -/
def LeavesOpen (level : Nat) (rows : List Row) : Prop :=
  ∃ row, rows.getLast? = some row ∧ row.after = level + 1 ∧ (row.returns = true → level < row.level)

structure OpenSegment (level : Nat) (rows : List Row) : Prop where
  deep : ∀ row ∈ rows, level ≤ row.level
  chain : rows.IsChain braces.follows
  begins : ∀ row ∈ rows.head?, braces.begins level row
  left : LeavesOpen level rows

/-- Edits that write a block up to the brace that closes it. -/
structure Opened (edits : List Edit) : Prop where
  level : ∀ level, levelAfter level edits = level
  admitted : ∀ edit ∈ edits, Admitted False edit
  rows : ∀ level, OpenSegment level (rowsAt level edits)

theorem opens_over_body {level : Nat} (header : Row) {body : List Row} (here : header.level = level)
    (opens : header.opens = true) (noReturn : header.returns = false)
    (segment : Segment braces (level + 1) body) :
    (header :: body).IsChain braces.follows ∧ LeavesOpen level (header :: body) := by
  have after : header.after = level + 1 := by simp [Row.after, here, opens]
  constructor
  · refine List.isChain_cons.mpr ⟨fun next head => ?_, segment.chain⟩
    obtain ⟨inner, noClose⟩ := segment.begins next head
    refine ⟨by simp [Row.before, inner, noClose, after], fun returns => ?_⟩
    rw [noReturn] at returns
    cases returns
  · rw [LeavesOpen, List.getLast?_cons]
    cases last : body.getLast? with
    | none =>
        refine ⟨header, rfl, after, fun returns => ?_⟩
        rw [noReturn] at returns
        cases returns
    | some row =>
        obtain ⟨inner, noBlock⟩ := segment.ends row last
        refine ⟨row, rfl, by simp [Row.after, inner, noBlock], fun _ => ?_⟩
        omega

theorem open_segment_continued {level : Nat} {front back : List Row} (close : Row)
    (opened : OpenSegment level front) (here : close.level = level) (closes : close.closes = true)
    (deep : ∀ row ∈ close :: back, level ≤ row.level)
    (chain : (close :: back).IsChain braces.follows) :
    (∀ row ∈ front ++ close :: back, level ≤ row.level) ∧
      (front ++ close :: back).IsChain braces.follows ∧
      ∀ row ∈ (front ++ close :: back).head?, braces.begins level row := by
  obtain ⟨last, ended, left, returned⟩ := opened.left
  refine ⟨fun row member => ?_, opened.chain.append chain fun row final first start => ?_, ?_⟩
  · exact (List.mem_append.mp member).elim (opened.deep row) (deep row)
  · obtain rfl := Option.some.inj (ended.symm.trans final)
    obtain rfl : close = first := by simpa using start
    rw [← here] at returned
    exact ⟨by simp [Row.before, closes, left, here], returned⟩
  · intro row first
    rw [List.head?_append_of_ne_nil _ (List.ne_nil_of_mem (List.mem_of_getLast? ended))] at first
    exact opened.begins row first

section

variable {head : Text} {body : List Edit} (block : Block braces body)

include block

theorem opened_header (spells : Spells head false true false) :
    Opened (.line head :: Edit.nested body) where
  level := level_after_header block
  admitted := admitted_header block spells.flush
  rows level := by
    rw [rows_at_header block]
    obtain ⟨chain, left⟩ := opens_over_body ⟨level, head⟩ rfl (spells.opens level)
      (spells.returns level) (block.rows (level + 1))
    refine ⟨deep_header block level, chain, fun row first => ?_, left⟩
    obtain rfl : Row.mk level head = row := by simpa using first
    exact ⟨rfl, spells.closes level⟩

theorem opened_turn {front : List Edit} (opened : Opened front)
    (spells : Spells head true true false) : Opened (front ++ .line head :: Edit.nested body) where
  level level := by rw [level_after_append, opened.level, level_after_header block]
  admitted edit member :=
    (List.mem_append.mp member).elim (opened.admitted edit)
      (admitted_header block spells.flush edit)
  rows level := by
    obtain ⟨next, left⟩ := opens_over_body ⟨level, head⟩ rfl (spells.opens level)
      (spells.returns level) (block.rows (level + 1))
    obtain ⟨deep, chain, begins⟩ := open_segment_continued ⟨level, head⟩ (opened.rows level) rfl
      (spells.closes level) (deep_header block level) next
    rw [rows_at_append, opened.level, rows_at_header block]
    refine ⟨deep, chain, begins, ?_⟩
    rw [LeavesOpen, List.getLast?_append_of_ne_nil _ (List.cons_ne_nil _ _)]
    exact left

end

theorem rows_of_opened {front : List Edit} (opened : Opened front) (level : Nat) :
    rowsAt level (front ++ [.line "\x7d"]) = rowsAt level front ++ [⟨level, "\x7d"⟩] := by
  rw [rows_at_append, opened.level, rows_at_line]

theorem statement_of_opened {front : List Edit} (opened : Opened front) :
    Statement braces (front ++ [.line "\x7d"]) false where
  block := by
    refine ⟨fun level => ?_, fun edit member => ?_, fun level => ?_, fun _ => trivial⟩
    · rw [level_after_append, opened.level]
      rfl
    · rcases List.mem_append.mp member with before | last
      · exact opened.admitted edit before
      · rw [List.mem_singleton.mp last]
        exact spells_close.flush
    · obtain ⟨deep, chain, begins⟩ := open_segment_continued ⟨level, "\x7d"⟩ (opened.rows level) rfl
        (spells_close.closes level) (by simp) (List.isChain_singleton _)
      rw [rows_of_opened opened]
      refine ⟨deep, chain, begins, fun row final => ?_⟩
      obtain rfl : Row.mk level "\x7d" = row := by simpa using final
      exact ⟨rfl, spells_close.opens level⟩
  goesOn _ level row final := by
    rw [rows_of_opened opened] at final
    obtain rfl : Row.mk level "\x7d" = row := by simpa using final
    exact ⟨rfl, spells_close.opens level, spells_close.returns level⟩

theorem statement_braced {head : Text} {body : List Edit} (block : Block braces body)
    (spells : Spells head false true false) :
    Statement braces (.line head :: Edit.nested body ++ [.line "\x7d"]) false :=
  statement_of_opened (opened_header block spells)

theorem rows_at_lines (level : Nat) (texts : List Text) :
    rowsAt level (texts.map Edit.line) = texts.map (Row.mk level) := by
  induction texts with
  | nil => rfl
  | cons text texts ih => rw [List.map_cons, rowsAt, ih, List.map_cons]

theorem statement_lines {texts : List Text}
    (plain : ∀ text ∈ texts, Spells text false false false) :
    Statement braces (texts.map Edit.line) false := by
  rw [List.map_eq_flatMap]
  exact statement_sequence _ texts fun text member => statement_line (plain text member)

/-- The edits of a definition in braces, below lines outside of it. -/
def definition (outside : List Text) (head : Text) (body : List Edit) : List Edit :=
  outside.map Edit.line ++ (.line head :: Edit.nested body ++ [.line "\x7d"])

theorem definition_braced {outside : List Text} {head : Text} {body : List Edit}
    (plain : ∀ text ∈ outside, Spells text false false false)
    (header : Spells head false true false) (block : Block braces body) :
    Block braces (definition outside head body) ∧
      Braced (rowsAt 0 (definition outside head body)) := by
  have before := statement_lines plain
  have opened := opened_header block header
  have whole : Block braces (definition outside head body) :=
    block_append before (statement_of_opened opened).block
  have shape : rowsAt 0 (definition outside head body) =
      rowsAt 0 (outside.map Edit.line) ++ ⟨0, head⟩ :: rowsAt 1 body ++ [⟨0, "\x7d"⟩] := by
    rw [definition, rows_at_append, before.block.level, rows_of_opened opened,
      rows_at_header block, List.append_assoc]
  refine ⟨whole, braced_of_segment (whole.rows 0) shape ?_ (header.opens 0) rfl ?_⟩
  · intro row member
    rw [rows_at_lines, List.mem_map] at member
    obtain ⟨text, inside, rfl⟩ := member
    exact (plain text inside).opens 0
  · exact (block.rows 1).deep

end StackMachine.Layout

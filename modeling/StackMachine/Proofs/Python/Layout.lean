import StackMachine.Proofs.Python.Syntax
import StackMachine.Proofs.Source.Rows

/-!
# Indented edits as blocks

The renderer indents with edits, and the reader recovers the blocks from columns. The lines of a
block are found whatever stands around it, as long as what follows starts no further right than the
block does; a header and a nonempty body then make a block of their own.
-/

namespace StackMachine.Python

open StackMachine.Render StackMachine.Render.Python StackMachine.Source

set_option autoImplicit false

/-- No line starts further right than the given column before another one does not. -/
def Shallow (column : Nat) (items : List Item) : Prop :=
  ∀ item ∈ items.head?, item.column ≤ column

/-- What the layout makes of items that stand at any level, in any open blocks. -/
structure Lays (items : Nat → List Item) (lines : List Line) : Prop where
  column : ∀ level, ∀ item ∈ (items level).head?, item.column = level * indentWidth
  lays : ∀ level outer rest tail, Shallow (level * indentWidth) rest →
    layout false (level * indentWidth :: outer) rest = some tail →
    layout false (level * indentWidth :: outer) (items level ++ rest) = some (lines ++ tail)

theorem layout_here (column : Nat) (outer : List Nat) (line : Line) (rest : List Item) :
    layout false (column :: outer) (⟨column, line⟩ :: rest) =
      (layout (Line.opens line) (column :: outer) rest).map fun lines => line :: lines := by
  simp [layout]

theorem layout_deeper (column : Nat) (outer : List Nat) (item : Item) (rest : List Item)
    (deeper : column < item.column) :
    layout true (column :: outer) (item :: rest) =
      layout false (item.column :: column :: outer) (item :: rest) := by
  simp [layout, deeper]

theorem layout_leave (inner column : Nat) (outer : List Nat) (rest : List Item)
    (tail : List Line) (deeper : column < inner) (shallow : Shallow column rest)
    (laid : layout false (column :: outer) rest = some tail) :
    layout false (inner :: column :: outer) rest = some (.close :: tail) := by
  cases rest with
  | nil =>
      simp only [layout, List.length_cons, Nat.add_sub_cancel, Option.some.injEq] at laid ⊢
      rw [← laid]
      rfl
  | cons item rest =>
      have left : item.column < inner :=
        Nat.lt_of_le_of_lt (shallow item (by simp)) deeper
      have leaves : ∀ columns : List Nat,
          (inner :: columns).takeWhile (item.column < ·) =
            inner :: columns.takeWhile (item.column < ·) ∧
          (inner :: columns).dropWhile (item.column < ·) =
            columns.dropWhile (item.column < ·) := by
        intro columns
        simp [left]
      simp only [layout] at laid ⊢
      rw [(leaves _).1, (leaves _).2]
      split at laid
      · next kept =>
          rw [if_pos kept]
          obtain ⟨lines, found, same⟩ := Option.map_eq_some_iff.mp laid
          rw [found, ← same]
          rfl
      · simp at laid

theorem lays_nil : Lays (fun _ => []) [] :=
  ⟨fun _ _ member => by simp at member, fun _ _ _ _ _ laid => laid⟩

theorem lays_line (line : Line) (plain : Line.opens line = false) :
    Lays (fun level => [⟨level * indentWidth, line⟩]) [line] := by
  refine ⟨fun level item member => ?_, fun level outer rest tail _ laid => ?_⟩
  · have same : ⟨level * indentWidth, line⟩ = item := by simpa using member
    rw [← same]
  · rw [List.singleton_append, layout_here, plain, laid]
    rfl

theorem lays_append {first second : Nat → List Item} {left right : List Line}
    (laysFirst : Lays first left) (laysSecond : Lays second right) :
    Lays (fun level => first level ++ second level) (left ++ right) := by
  refine ⟨fun level item member => ?_, fun level outer rest tail shallow laid => ?_⟩
  · cases found : first level with
    | nil =>
        rw [found, List.nil_append] at member
        exact laysSecond.column level item member
    | cons head others =>
        apply laysFirst.column level
        rw [found] at member ⊢
        exact member
  · have shallowSecond : Shallow (level * indentWidth) (second level ++ rest) := by
      intro item member
      cases found : second level with
      | nil =>
          rw [found] at member
          exact shallow item member
      | cons head others =>
          have atHead : item ∈ (second level).head? := by
            rw [found] at member ⊢
            exact member
          exact Nat.le_of_eq (laysSecond.column level item atHead)
    rw [List.append_assoc, List.append_assoc]
    exact laysFirst.lays level outer _ _ shallowSecond
      (laysSecond.lays level outer rest tail shallow laid)

/-- A header opens a block whose lines stand one level deeper. -/
theorem lays_block {body : Nat → List Item} {lines : List Line} (header : Line)
    (opens : Line.opens header = true) (nonempty : ∀ level, body level ≠ [])
    (laysBody : Lays body lines) :
    Lays (fun level => ⟨level * indentWidth, header⟩ :: body (level + 1))
      (header :: lines ++ [.close]) := by
  refine ⟨fun level item member => ?_, fun level outer rest tail shallow laid => ?_⟩
  · have same : ⟨level * indentWidth, header⟩ = item := by simpa using member
    rw [← same]
  · have deeper : level * indentWidth < (level + 1) * indentWidth :=
      Nat.mul_lt_mul_of_pos_right (Nat.lt_succ_self level) (by decide)
    obtain ⟨first, others, shape⟩ := List.exists_cons_of_ne_nil (nonempty (level + 1))
    have column : first.column = (level + 1) * indentWidth :=
      laysBody.column (level + 1) first (by rw [shape]; rfl)
    have left := layout_leave _ _ outer rest tail deeper shallow laid
    have inside := laysBody.lays (level + 1) (level * indentWidth :: outer) rest _
      (fun item member => Nat.le_trans (shallow item member) (Nat.le_of_lt deeper)) left
    have entered : layout true (level * indentWidth :: outer) (body (level + 1) ++ rest) =
        layout false ((level + 1) * indentWidth :: level * indentWidth :: outer)
          (body (level + 1) ++ rest) := by
      rw [shape, List.cons_append, layout_deeper _ _ _ _ (by rw [column]; exact deeper), column]
    rw [List.cons_append, layout_here, opens, entered, inside]
    simp

/-- Edits whose rows, wherever they stand, are read as the given lines. -/
def Denotes (edits : List Edit) (lines : List Line) : Prop :=
  ∃ items, Legible row? edits items ∧ Lays (fun level => (items level).filterMap id) lines

theorem denotes_nil : Denotes [] [] := ⟨_, legible_nil, lays_nil⟩

theorem row_blank : row? [] = some none := rfl

theorem denotes_blank : Denotes [.blank] [] := ⟨_, legible_blank row_blank, lays_nil⟩

theorem row_indented (text : Text) (line : Line) (reads : row? text = some (some ⟨0, line⟩))
    (width : Nat) : row? (List.replicate width blank ++ text) = some (some ⟨width, line⟩) := by
  simp only [row?, Lexicon.tokens_indented] at reads ⊢
  obtain ⟨tokens, found, read⟩ := Option.bind_eq_some_iff.mp reads
  split at read
  · simp at read
  · next nonempty =>
      obtain ⟨_, readLine, same⟩ := Option.map_eq_some_iff.mp read
      simp only [Option.some.injEq, Item.mk.injEq] at same
      obtain ⟨column, rfl⟩ := same
      have starts : text.takeWhile (· == blank) = [] := List.eq_nil_of_length_eq_zero column
      have width : ((List.replicate width blank ++ text).takeWhile (· == blank)).length = width := by
        rw [List.takeWhile_append_of_pos (by simp), starts]
        simp
      rw [found, Option.bind_some, if_neg nonempty, readLine, width]
      rfl

theorem legible_row {text : Text} {line : Line} (reads : row? text = some (some ⟨0, line⟩)) :
    Legible row? [.line text] fun level => [some ⟨level * indentWidth, line⟩] :=
  legible_line fun level => row_indented text line reads (level * indentWidth)

theorem denotes_line {text : Text} {line : Line} (reads : row? text = some (some ⟨0, line⟩))
    (plain : Line.opens line = false) : Denotes [.line text] [line] :=
  ⟨_, legible_row reads, lays_line line plain⟩

theorem denotes_append {first second : List Edit} {left right : List Line}
    (denotesFirst : Denotes first left) (denotesSecond : Denotes second right) :
    Denotes (first ++ second) (left ++ right) := by
  obtain ⟨_, legibleFirst, laysFirst⟩ := denotesFirst
  obtain ⟨_, legibleSecond, laysSecond⟩ := denotesSecond
  refine ⟨_, legible_append legibleFirst legibleSecond, ?_⟩
  simpa using lays_append laysFirst laysSecond

/-- A body with a line in it has an item at every level, which is what opens its block. -/
theorem denotes_block {text : Text} {header : Line} {body : List Edit} {lines : List Line}
    (reads : row? text = some (some ⟨0, header⟩)) (opens : Line.opens header = true)
    (nonempty : lines ≠ []) (denotes : Denotes body lines) :
    Denotes (.line text :: Edit.nested body) (header :: lines ++ [.close]) := by
  obtain ⟨items, legible, lays⟩ := denotes
  have itemsNonempty : ∀ level, (items level).filterMap id ≠ [] := by
    intro level empty
    have laid := lays.lays level [] [] [] (fun _ member => by simp at member) rfl
    rw [empty] at laid
    exact nonempty (by simpa [layout] using laid)
  refine ⟨_, legible_cons (legible_row reads) (legible_nested legible), ?_⟩
  simpa using lays_block header opens itemsNonempty lays

theorem read_denoted {edits : List Edit} {code : Code Simple Expr Head}
    (denotes : Denotes edits code.events) : read (write indentWidth 0 edits) = some code := by
  obtain ⟨items, legible, lays⟩ := denotes
  have clean : ∀ text item, row? text = some item → Text.newline ∉ text := by
    intro text item found
    obtain ⟨tokens, cut, -⟩ := Option.bind_eq_some_iff.mp found
    exact lexicon.tokens_no_newline text tokens cut
  have laid := lays.lays 0 [] [] [] (fun _ member => by simp at member) rfl
  simp only [List.append_nil, Nat.zero_mul] at laid
  rw [read, read_written clean legible, Option.bind_some, laid, Option.bind_some, assemble_events]

end StackMachine.Python

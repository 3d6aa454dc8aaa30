import StackMachine.Proofs.Lines
import StackMachine.Render.Language

/-!
# Rows of rendered text

A rendered program is the writing of one list of edits, and its lines are that list's rows: each row
is indented by the level it stands at. A reader that takes one row at a time is judged on edits that
leave the level as they found it, so that what it makes of a block does not depend on what stands
around the block.
-/

namespace StackMachine.Render

set_option autoImplicit false

/-- The lines that edits write, without the newlines that end them. -/
def rows (width : Nat) : Nat → List Edit → List Text
  | _, [] => []
  | level, .line text :: rest =>
      (List.replicate (level * width) 32 ++ text) :: rows width level rest
  | level, .blank :: rest => [] :: rows width level rest
  | level, .indent :: rest => rows width (level + 1) rest
  | level, .dedent :: rest => rows width (level - 1) rest

theorem write_rows (width level : Nat) (edits : List Edit) :
    write width level edits = Text.terminated (rows width level edits) := by
  induction edits generalizing level with
  | nil => rfl
  | cons edit edits ih =>
      rw [write, ih]
      cases edit with
      | line text => simp [rows, Text.terminated, Edit.text, Edit.levelAfter]
      | blank => simp [rows, Text.terminated, Edit.text, Edit.levelAfter]
      | indent => rfl
      | dedent => rfl

theorem rows_append (width level : Nat) (first second : List Edit) :
    rows width level (first ++ second) =
      rows width level first ++ rows width (levelAfter level first) second := by
  induction first generalizing level with
  | nil => rfl
  | cons edit first ih => cases edit <;> simp [rows, ih, levelAfter, Edit.levelAfter]

theorem level_after_append (level : Nat) (first second : List Edit) :
    levelAfter level (first ++ second) = levelAfter (levelAfter level first) second := by
  simp [levelAfter]

theorem write_append (width level : Nat) (first second : List Edit) :
    write width level (first ++ second) =
      write width level first ++ write width (levelAfter level first) second := by
  simp [write_rows, rows_append, Text.terminated]

namespace Target

variable (target : Target)

/-- The edits of the pieces that follow, given whether an arm was opened before them. -/
def editsFrom : Bool → List Piece → List Edit
  | _, [] => []
  | armOpened, piece :: rest =>
      (target.edits armOpened piece).1 ++ editsFrom (armOpened || piece.opensArm) rest

theorem text_from_write (sheet : Sheet) (pieces : List Piece) :
    target.textFrom sheet pieces =
      write indentWidth sheet.level (target.editsFrom sheet.armOpened pieces) := by
  induction pieces generalizing sheet with
  | nil => rfl
  | cons piece pieces ih =>
      rw [textFrom, ih, editsFrom, write_append]
      rfl

def armEdits (program : Program) : Nat → List Instr → List Edit
  | _, [] => []
  | pc, instr :: rest =>
      target.arm pc (pc == 0) ++ (target.action (.ofInstr program pc instr)).1 ++ target.endArm ++
        armEdits program (pc + 1) rest

/-- The edits of a whole program. It has an instruction, so its other arm is not the first one. -/
def source (name : Text) (program : Program) : List Edit :=
  target.opening name program ++ target.armEdits program 0 program.code ++
    (target.otherArm false ++ (target.action .halt).1 ++ target.endArm) ++ target.closing true

theorem edits_from_arms (program : Program) (armOpened : Bool) (pc : Nat) (code : List Instr)
    (rest : List Piece) :
    target.editsFrom armOpened (arms program pc code ++ rest) =
      target.armEdits program pc code ++ target.editsFrom (armOpened || code != []) rest := by
  induction code generalizing armOpened pc with
  | nil => simp [arms, armEdits]
  | cons instr code ih =>
      have opened : (instr :: code != []) = true := rfl
      simp [arms, armEdits, editsFrom, edits, Piece.opensArm, ih, opened]

theorem edits_from_walk (name : Text) (program : Program) :
    target.editsFrom false (walk name program) = target.source name program := by
  have nonempty : program.code ≠ [] := List.ne_nil_of_mem program.halts
  have opened : (program.length == 0) = false := by simp [Program.length, nonempty]
  rw [walk, List.cons_append, editsFrom, edits_from_arms]
  simp [editsFrom, edits, Piece.opensArm, source, opened]

end Target

theorem Language.render_source (language : Language) (name : Text) (program : Program) :
    language.render name program = write indentWidth 0 (language.target.source name program) := by
  rw [render, Target.text_from_write, ← Target.edits_from_walk]
  rfl

end StackMachine.Render

namespace StackMachine.Source

open StackMachine.Render

set_option autoImplicit false

variable {Item : Type}

/-- What a reader of single rows makes of some edits at each level. -/
structure Legible (read : Text → Option Item) (edits : List Edit) (items : Nat → List Item) :
    Prop where
  level : ∀ level, levelAfter level edits = level
  reads : ∀ level, (rows indentWidth level edits).mapM read = some (items level)

section

variable {read : Text → Option Item}

theorem legible_nil : Legible read [] fun _ => [] := ⟨fun _ => rfl, fun _ => rfl⟩

theorem legible_line {text : Text} {item : Nat → Item}
    (reads : ∀ level, read (List.replicate (level * indentWidth) 32 ++ text) = some (item level)) :
    Legible read [.line text] fun level => [item level] :=
  ⟨fun _ => rfl, fun level => by simp [rows, reads level]⟩

theorem legible_blank {item : Item} (reads : read [] = some item) :
    Legible read [.blank] fun _ => [item] :=
  ⟨fun _ => rfl, fun level => by simp [rows, reads]⟩

theorem legible_append {first second : List Edit} {left right : Nat → List Item}
    (legibleFirst : Legible read first left) (legibleSecond : Legible read second right) :
    Legible read (first ++ second) fun level => left level ++ right level := by
  refine ⟨fun level => ?_, fun level => ?_⟩
  · rw [level_after_append, legibleFirst.level, legibleSecond.level]
  · rw [rows_append, legibleFirst.level, List.mapM_append, legibleFirst.reads, legibleSecond.reads]
    rfl

theorem legible_cons {edit : Edit} {edits : List Edit} {left right : Nat → List Item}
    (legibleFirst : Legible read [edit] left) (legibleRest : Legible read edits right) :
    Legible read (edit :: edits) fun level => left level ++ right level :=
  legible_append legibleFirst legibleRest

theorem legible_nested {body : List Edit} {items : Nat → List Item}
    (legible : Legible read body items) :
    Legible read (Edit.nested body) fun level => items (level + 1) := by
  have inner : ∀ level, levelAfter level (.indent :: body) = level + 1 :=
    fun level => legible.level (level + 1)
  refine ⟨fun level => ?_, fun before => ?_⟩
  · rw [Edit.nested, level_after_append, inner]
    rfl
  · rw [Edit.nested, rows_append, inner]
    simpa [rows] using legible.reads (before + 1)

theorem read_of_map_m {rows : List Text} {items : List Item} (found : rows.mapM read = some items)
    (row : Text) (member : row ∈ rows) : ∃ item, read row = some item := by
  induction rows generalizing items with
  | nil => simp at member
  | cons first rows ih =>
      simp only [List.mapM_cons, Option.bind_eq_bind, Option.bind_eq_some_iff] at found
      obtain ⟨item, readFirst, others, readOthers, -⟩ := found
      rcases List.mem_cons.mp member with here | later
      · exact ⟨item, by rw [here]; exact readFirst⟩
      · exact ih readOthers later

/-- The lines of a written text are its rows, when the reader refuses a row with a newline. -/
theorem read_written {edits : List Edit} {items : Nat → List Item}
    (clean : ∀ row item, read row = some item → Text.newline ∉ row)
    (legible : Legible read edits items) :
    (Text.lines (write indentWidth 0 edits)).mapM read = some (items 0) := by
  have cleanRows : ∀ row ∈ rows indentWidth 0 edits, Text.newline ∉ row := by
    intro row member
    obtain ⟨item, found⟩ := read_of_map_m (legible.reads 0) row member
    exact clean row item found
  rw [write_rows, Text.lines_terminated _ cleanRows, legible.reads]

end

section

variable {read : Text → Option (List Item)}

/-- Edits whose rows, wherever they stand, are read as the given items. -/
def Yields (read : Text → Option (List Item)) (edits : List Edit) (items : List Item) : Prop :=
  ∃ rows, Legible read edits (fun _ => rows) ∧ rows.flatten = items

theorem yields_nil : Yields read [] [] := ⟨[], legible_nil, rfl⟩

theorem yields_line {text : Text} {items : List Item}
    (indented : ∀ width text, read (List.replicate width 32 ++ text) = read text)
    (reads : read text = some items) : Yields read [.line text] items :=
  ⟨[items], legible_line fun level => by rw [indented, reads], by simp⟩

theorem yields_append {first second : List Edit} {left right : List Item}
    (yieldsFirst : Yields read first left) (yieldsSecond : Yields read second right) :
    Yields read (first ++ second) (left ++ right) := by
  obtain ⟨_, legibleFirst, rfl⟩ := yieldsFirst
  obtain ⟨_, legibleSecond, rfl⟩ := yieldsSecond
  exact ⟨_, legible_append legibleFirst legibleSecond, List.flatten_append⟩

theorem yields_nested {body : List Edit} {items : List Item} (yields : Yields read body items) :
    Yields read (Edit.nested body) items := by
  obtain ⟨_, legible, rfl⟩ := yields
  exact ⟨_, legible_nested legible, rfl⟩

theorem yields_written {edits : List Edit} {items : List Item}
    (clean : ∀ row item, read row = some item → Text.newline ∉ row)
    (yields : Yields read edits items) :
    ((Text.lines (write indentWidth 0 edits)).mapM read).map List.flatten = some items := by
  obtain ⟨_, legible, rfl⟩ := yields
  rw [read_written clean legible]
  rfl

end

end StackMachine.Source

import StackMachine.Proofs.Java.Braces
import StackMachine.Proofs.Python.Indentation
import StackMachine.Proofs.Render.Dispatch
import StackMachine.Proofs.Rust.Braces

/-!
# Every source is made of blocks

Whatever the program, no piece of its walk is refused, the writing ends at the level that it began
at, and the lines of the text open and close their blocks as the language asks.
-/

namespace StackMachine.Render

open StackMachine.Layout

set_option autoImplicit false

theorem Target.level_after_sheets (target : Target) (sheet : Sheet) (pieces : List Piece) :
    (pieces.foldl target.sheetAfter sheet).level =
      levelAfter sheet.level (target.editsFrom sheet.armOpened pieces) := by
  induction pieces generalizing sheet with
  | nil => rfl
  | cons piece pieces ih =>
      rw [List.foldl_cons, ih, editsFrom, level_after_append]
      rfl

theorem walk_fits (name : Text) (program : Program) (action : Action)
    (among : .action action ∈ walk name program) : action.Fits := by
  simp only [walk, List.mem_append, List.mem_cons, reduceCtorEq, false_or, Piece.action.injEq,
    List.not_mem_nil, or_false, List.cons_append] at among
  rcases among with among | rfl
  · exact arms_fit program 0 program.code action among
  · trivial

namespace Language

theorem piece_fits (language : Language) (name : Text) (program : Program) (sheet : Sheet) :
    ∀ piece ∈ walk name program, language.target.misfit sheet piece = none := by
  intro piece among
  cases piece with
  | opening _ _ | arm _ _ | otherArm _ | endArm | closing => cases language <;> rfl
  | action action =>
      exact (language.misfit_iff sheet action).mpr (walk_fits name program action among)

/-- The rows of a source as the language asks for them. A blank line belongs to no block. -/
def WellFormed : Language → List Row → Prop
  | .python, rows => Indented (rows.filter Row.isWritten)
  | .java, rows | .rust, rows => Braced rows

def rules : Language → Rules
  | .python => indentation
  | .java | .rust => braces

theorem name_clean {language : Language} {name : Text}
    (valid : language.isFunctionName name = true) : Text.newline ∉ name := by
  simp only [isFunctionName, Bool.and_eq_true] at valid
  have identifier := valid.1.1
  cases name with
  | nil => simp
  | cons first rest =>
      simp only [isIdentifier, Bool.and_eq_true, List.all_eq_true] at identifier
      intro member
      rcases List.mem_cons.mp member with rfl | later
      · exact absurd identifier.1 (by decide)
      · exact absurd (identifier.2 _ later) (by decide)

theorem source_blocks (language : Language) (name : Text) (clean : Text.newline ∉ name)
    (program : Program) : Block language.rules (language.target.source name program) := by
  cases language with
  | python => exact (Python.source_indented name clean program).1
  | java => exact (Java.source_braced name clean program).1
  | rust => exact (Rust.source_braced name clean program).1

theorem source_well_formed (language : Language) (name : Text) (clean : Text.newline ∉ name)
    (program : Program) :
    language.WellFormed (allRows 0 (language.target.source name program)) := by
  have admitted := (language.source_blocks name clean program).admitted
  cases language with
  | python =>
      rw [WellFormed, written_rows admitted]
      exact (Python.source_indented name clean program).2
  | java =>
      rw [WellFormed, all_rows_written admitted]
      exact (Java.source_braced name clean program).2
  | rust =>
      rw [WellFormed, all_rows_written admitted]
      exact (Rust.source_braced name clean program).2

/-- Rendering under a valid name refuses nothing and comes back to the outermost level, and the
lines of the text are well formed blocks of the language. -/
theorem render_well_formed (language : Language) (name : Text) (program : Program)
    (valid : language.isFunctionName name = true) :
    (∀ (sheet : Sheet), ∀ piece ∈ walk name program, language.target.misfit sheet piece = none) ∧
      ((walk name program).foldl language.target.sheetAfter .blank).level = 0 ∧
      ∃ rows, rowsOf? (language.render name program) = some rows ∧ language.WellFormed rows := by
  have clean := name_clean valid
  have blocks := language.source_blocks name clean program
  have wellFormed := language.source_well_formed name clean program
  refine ⟨language.piece_fits name program, ?_, _, ?_, wellFormed⟩
  · rw [Target.level_after_sheets]
    change levelAfter 0 (language.target.editsFrom false (walk name program)) = 0
    rw [Target.edits_from_walk, blocks.level]
  · rw [render_source, rows_of_write blocks.admitted]

/-- A branch whose target is out of range, below an index that is out of range too. -/
def strayProgram : Program :=
  ⟨[.loadInput (-1), .branch .ifZero 9, .halt], 12, .error, .direct, by decide, by decide⟩

theorem render_well_formed_stray :
    Language.isFunctionName .java "answer" = true ∧
      (∀ (sheet : Sheet), ∀ piece ∈ walk "answer" strayProgram,
        Java.target.misfit sheet piece = none) ∧
      ((walk "answer" strayProgram).foldl Java.target.sheetAfter .blank).level = 0 ∧
      ∃ rows, rowsOf? (Language.java.render "answer" strayProgram) = some rows ∧ Braced rows := by
  have valid : Language.isFunctionName .java "answer" = true := by decide +kernel
  exact ⟨valid, render_well_formed .java "answer" strayProgram valid⟩

end Language

end StackMachine.Render

import StackMachine.Proofs.Java.Recover
import StackMachine.Proofs.Python.Recover
import StackMachine.Proofs.Rust.Recover

/-!
# All texts keep the same

A name only stands on the line that begins the function, so it tells no two programs apart that
another name does not. Under a name that can be read, the text of each language determines the
canonical arms of the walk and the budget, and these determine the text of every language and every
run.
-/

namespace StackMachine.Render

set_option autoImplicit false

namespace Language

/-- The part of a text that names the function comes before all that shows the program. -/
theorem render_split (language : Language) :
    ∃ (head : Text → Text) (tail : Program → Text), ∀ name program,
      language.render name program = head name ++ tail program := by
  have split : ∀ (head : Text → List Edit) (rest : Program → List Edit) (level : Nat),
      (∀ name, levelAfter 0 (head name) = level) →
      (∀ name program, language.target.opening name program = head name ++ rest program) →
      ∃ (head : Text → Text) (tail : Program → Text), ∀ name program,
        language.render name program = head name ++ tail program := by
    intro head rest level settled opens
    refine ⟨fun name => write indentWidth 0 (head name), fun program => write indentWidth level
      (rest program ++ language.target.armEdits program 0 program.code ++
        (language.target.otherArm false ++ (language.target.action .halt).1 ++
          language.target.endArm) ++ language.target.closing true), fun name program => ?_⟩
    rw [render_source, Target.source, opens, ← settled name, ← write_append]
    simp only [List.append_assoc]
  -- The openings are cut before their last edits, which begin the loop over the steps.
  cases language with
  | python => exact split (fun name => _) (fun program => _) 1 (fun _ => rfl) fun _ _ => rfl
  | java => exact split (fun name => _) (fun program => _) 1 (fun _ => rfl) fun _ _ => rfl
  | rust => exact split (fun name => _) (fun program => _) 1 (fun _ => rfl) fun _ _ => rfl

theorem same_text_under (language : Language) (s t : Program) (name other : Text)
    (same : language.render name s = language.render name t) :
    language.render other s = language.render other t := by
  obtain ⟨head, tail, split⟩ := language.render_split
  rw [split, split] at same ⊢
  rw [List.append_cancel_left same]

theorem same_text_iff (language : Language) (s t : Program) (name : Text) :
    language.render name s = language.render name t ↔ Alike s t := by
  refine ⟨fun same => ?_, fun alike => render_of_alike alike language name⟩
  have legible := language.same_text_under s t name "f" same
  cases language with
  | python => exact Python.alike_of_text legible
  | java => exact Java.alike_of_text legible
  | rust => exact Rust.alike_of_text legible

end Language

/-- Two programs have the same text in one language just when they have the same text in another,
and then no run tells them apart: status, value, steps and final position are the same. -/
theorem same_texts_same_runs (s t : Program) (name : Text) :
    (∀ language other : Language,
      language.render name s = language.render name t ↔
        other.render name s = other.render name t) ∧
      ∀ language : Language, language.render name s = language.render name t →
        ∀ inputs, s.run inputs = t.run inputs := by
  constructor
  · intro language other
    rw [language.same_text_iff, other.same_text_iff]
  · intro language same inputs
    exact run_of_alike ((language.same_text_iff s t name).mp same) inputs

/-- A jump past the end that is clamped to the last instruction, and a direct index below the first
input. -/
def clampedProgram : Program :=
  ⟨[.pushConst 7, .jump 9, .loadInput (-3), .halt], 8, .clamp, .direct, by decide, by decide⟩

/-- The jump written out, and another index below the first input. -/
def exactProgram : Program :=
  ⟨[.pushConst 7, .jump 3, .loadInput (-1), .halt], 8, .error, .direct, by decide, by decide⟩

theorem same_texts_clamped_exact :
    clampedProgram ≠ exactProgram ∧
      Language.python.render "answer" clampedProgram =
        Language.python.render "answer" exactProgram ∧
      Language.java.render "answer" clampedProgram = Language.java.render "answer" exactProgram ∧
      Language.rust.render "answer" clampedProgram = Language.rust.render "answer" exactProgram ∧
      clampedProgram.run [1, 2] = ⟨⟨.ok, 7⟩, 3, 3⟩ ∧
      ∀ inputs, clampedProgram.run inputs = exactProgram.run inputs := by
  have alike : Alike clampedProgram exactProgram := by decide
  have python := render_of_alike alike .python "answer"
  obtain ⟨agree, runs⟩ := same_texts_same_runs clampedProgram exactProgram "answer"
  exact ⟨by decide, python, (agree .python .java).mp python, (agree .python .rust).mp python,
    by decide, runs .python python⟩

end StackMachine.Render

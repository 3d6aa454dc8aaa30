import Mathlib.Algebra.Group.Nat.Defs
import StackMachine.Proofs.Assembly.Diagnosis
import StackMachine.Proofs.Lines

/-!
# Reading with reports

In a text of fewer than `2 ^ 32` bytes no place is cut, and the loop reads as the recursion does. So
the reports are there just when there is no result, each has its reason in the text, and the counters
say how many there are.
-/

namespace StackMachine.Assembly

set_option autoImplicit false

namespace Reports

structure Counted (reports : Reports) : Prop where
  errors : reports.errors = .ofNat (Diagnostic.errorCount reports.all)
  warnings : reports.warnings = .ofNat (Diagnostic.warningCount reports.all)

theorem counted_none : none.Counted := ⟨rfl, rfl⟩

theorem Counted.add {reports : Reports} (counted : reports.Counted) (diagnostic : Diagnostic) :
    (reports.add diagnostic).Counted := by
  obtain ⟨errors, warnings⟩ := counted
  constructor
  · simp only [Reports.add, errors, Diagnostic.errorCount, List.countP_append,
      List.countP_singleton, decide_eq_true_eq]
    split <;> simp [UInt64.ofNat_add]
  · simp only [Reports.add, warnings, Diagnostic.warningCount, List.countP_append,
      List.countP_singleton, decide_eq_true_eq]
    split <;> simp [UInt64.ofNat_add]

theorem counted_add_all {reports : Reports} (counted : reports.Counted)
    (diagnostics : List Diagnostic) : (diagnostics.foldl add reports).Counted := by
  induction diagnostics generalizing reports with
  | nil => exact counted
  | cons diagnostic diagnostics ih => exact ih (counted.add diagnostic)

end Reports

theorem nothing_cut (text : Text) (short : text.length < 2 ^ 32) :
    (diagnostics text).map cut = diagnostics text := by
  rcases diagnostics_cases text with ofLines | ⟨draft, error, -, -, unplaced⟩
  · rw [ofLines]
    refine (List.map_congr_left fun diagnostic reported => ?_).trans (List.map_id _)
    obtain ⟨first, line, word, found, place⟩ :=
      (lines_diagnosed (Text.lines text)).placed diagnostic reported
    obtain ⟨known, rfl⟩ := List.getElem?_eq_some_iff.mp found
    have numbers := Text.length_lines_le text
    have width := Text.line_length_le text _ (List.getElem_mem known)
    have inside := place.bounds.2
    have line : diagnostic.line < 2 ^ 32 := by omega
    have column : diagnostic.column < 2 ^ 32 := by omega
    rw [cut, UInt32.toNat_ofNat_of_lt' line, UInt32.toNat_ofNat_of_lt' column, id]
  · rw [unplaced]
    rfl

/-- In a short text the loop finds what the recursion finds, and adds all of it to the reports. -/
theorem recover_as_parse (text : Text) (short : text.length < 2 ^ 32) (reports : Reports) :
    recover text reports = ((parse text).toOption, (diagnostics text).foldl .add reports) := by
  rw [recover_reads, nothing_cut text short]

theorem recover_first_as_strict (text : Text) (short : text.length < 2 ^ 32) :
    recoverFirst? text = some (parseStrict text) := by
  rw [recoverFirst?, recover_as_parse text short, diagnostics, parseStrict]
  cases parse text with
  | ok program => rfl
  | error rejection =>
      simp [Except.toOption, Reports.all_add_all, Rejection.all, Reports.add, Reports.none]

theorem refused_iff_reported (text : Text) :
    (parse text).toOption = none ↔ diagnostics text ≠ [] := by
  rw [diagnostics]
  cases parse text <;> simp [Except.toOption, Rejection.all]

theorem reported_as_errors (text : Text) (report : Diagnostic)
    (reported : report ∈ diagnostics text) : report.severity = .error := by
  rcases diagnostics_cases text with ofLines | ⟨draft, error, -, -, whole⟩
  · rw [ofLines] at reported
    obtain ⟨front, line, back, fault, -, -, rfl⟩ := (Draft.reported_iff _ _ _ _).mp reported
    rfl
  · rw [whole] at reported
    rw [List.mem_singleton.mp reported]
    rfl

theorem reports_few (lines : List Text) (draft : Draft) (number : Nat) :
    (draft.absorbLines number lines).2.length ≤ lines.length := by
  induction lines generalizing draft number with
  | nil => exact Nat.le_refl 0
  | cons line lines ih =>
      have later := ih (draft.absorb (tokenize line)).1 (number + 1)
      rw [Draft.reports_cons, List.length_append, List.length_cons]
      cases (draft.absorb (tokenize line)).2 with
      | none => exact Nat.le_succ_of_le (by simpa using later)
      | some fault =>
          rw [Option.map_some, Option.toList_some, List.length_singleton, Nat.add_comm 1]
          exact Nat.succ_le_succ later

theorem diagnostics_few (text : Text) : (diagnostics text).length ≤ text.length + 1 := by
  rcases diagnostics_cases text with ofLines | ⟨draft, error, -, -, whole⟩
  · rw [ofLines]
    exact (reports_few _ _ _).trans ((Text.length_lines_le text).trans (Nat.le_succ _))
  · rw [whole]
    exact Nat.succ_le_succ (Nat.zero_le _)

/-- The reports explain the result: there is none exactly if something is reported, each report has
its reason in the text, all are errors, and the counters say how many there are. -/
structure Explains (text : Text) (result : Option Program) (reports : Reports) : Prop where
  reported : result = none ↔ reports.all ≠ []
  reasons : result = none → LineByLine (rows text) reports.all ∨ AsWhole (rows text) reports.all
  errors : ∀ report ∈ reports.all, report.severity = .error
  counted : reports.errors.toNat = reports.all.length
  noWarnings : reports.warnings = 0

/-- Whatever the lines of a short text are, good and bad ones in any order, the reports explain the
result. The strict reader finds the first of them, and both readers do what their recursive forms
do. -/
theorem reports_explain_result (text : Text) (short : text.length < 2 ^ 32) :
    Explains text (recover text .none).1 (recover text .none).2 ∧
      (∀ program, (recover text .none).1 = some program →
        recoverFirst? text = some (.ok program)) ∧
      (∀ first others, (recover text .none).2.all = first :: others →
        recoverFirst? text = some (.error first)) ∧
      (recover text .none).1 = (parse text).toOption ∧
      (recover text .none).2.all = diagnostics text ∧
      recoverFirst? text = some (parseStrict text) := by
  have strict := recover_first_as_strict text short
  have read := recover_as_parse text short .none
  have all : (recover text .none).2.all = diagnostics text := by
    rw [read]
    exact Reports.all_add_all .none (diagnostics text)
  have counted : (recover text .none).2.Counted := by
    rw [read]
    exact Reports.counted_add_all Reports.counted_none (diagnostics text)
  have reported : (recover text .none).1 = none ↔ (recover text .none).2.all ≠ [] := by
    rw [all, read]
    exact refused_iff_reported text
  have errors : ∀ report ∈ (recover text .none).2.all, report.severity = .error := by
    rw [all]
    exact reported_as_errors text
  refine ⟨⟨reported, ?_, errors, ?_, ?_⟩, fun program made => ?_, fun first others found => ?_,
    by rw [read], all, strict⟩
  · intro _
    rw [all]
    exact diagnostics_explain text
  · have few := diagnostics_few text
    have onlyErrors : Diagnostic.errorCount (recover text .none).2.all =
        (recover text .none).2.all.length :=
      List.countP_eq_length.mpr fun report known => by simpa using errors report known
    rw [counted.errors, onlyErrors, all, UInt64.toNat_ofNat_of_lt' (by simp [UInt64.size]; omega)]
  · have noWarning : Diagnostic.warningCount (recover text .none).2.all = 0 :=
      List.countP_eq_zero.mpr fun report known => by simp [errors report known]
    rw [counted.warnings, noWarning]
    rfl
  · have pair : recover text .none = (some program, (recover text .none).2) := Prod.ext made rfl
    rw [recoverFirst?, pair]
  · have refused : (recover text .none).1 = none := reported.mpr (by simp [found])
    have pair : recover text .none = (none, (recover text .none).2) := Prod.ext refused rfl
    rw [recoverFirst?, pair]
    simp [found]

/-- The column counts the tab before the mnemonic, and the comment behind it changes nothing; that
the line is refused ends the header all the same. -/
theorem extra_operand_explained :
    Explains (Text.ascii "\tpush_const 1 2 # two\n.max_steps 5\nhalt") none
        ⟨[⟨.error, "unexpected token '2'", 1, 15⟩,
          ⟨.error, "directive '.max_steps' must precede the first instruction", 2, 1⟩], 2, 0⟩ ∧
      recoverFirst? (Text.ascii "\tpush_const 1 2 # two\n.max_steps 5\nhalt") =
        some (.error ⟨.error, "unexpected token '2'", 1, 15⟩) := by
  have read : recover (Text.ascii "\tpush_const 1 2 # two\n.max_steps 5\nhalt") .none =
      (none, ⟨[⟨.error, "unexpected token '2'", 1, 15⟩,
        ⟨.error, "directive '.max_steps' must precede the first instruction", 2, 1⟩], 2, 0⟩) := by
    decide +kernel
  have explained :=
    reports_explain_result (Text.ascii "\tpush_const 1 2 # two\n.max_steps 5\nhalt")
      (by decide +kernel)
  rw [read] at explained
  exact ⟨explained.1, explained.2.2.1 _ _ rfl⟩

end StackMachine.Assembly

import Mathlib.Data.List.Basic
import StackMachine.Proofs.Assembly.Loop
import StackMachine.Proofs.Assembly.Words
import StackMachine.Proofs.Listing

/-!
# A refused line leaves no trace

Of a refused line the draft keeps only whether it began like an instruction. So a blank line in the
place of a refused directive, and any accepted instruction in the place of a refused one, give the
lines behind it the same draft but for its code, on which no verdict depends.
-/

namespace StackMachine.Assembly

set_option autoImplicit false

def point : UInt8 := 46

/-- The first word of the line begins with a point. -/
def BeginsDirective (line : Text) : Prop := (words line).head?.bind List.head? = some point

instance (line : Text) : Decidable (BeginsDirective line) :=
  inferInstanceAs (Decidable (_ = _))

/-- The line has a first word, which does not begin with a point. -/
def BeginsInstr (line : Text) : Prop := words line ≠ [] ∧ ¬BeginsDirective line

instance (line : Text) : Decidable (BeginsInstr line) := inferInstanceAs (Decidable (_ ∧ _))

theorem begins_directive_iff {line : Text} {head : Token} {arguments : List Token}
    (tokens : tokenize line = head :: arguments) :
    BeginsDirective line ↔ head.isDirective = true := by
  rw [BeginsDirective, ← tokens_are_words, tokens, Token.isDirective, decide_eq_true_iff]
  rfl

theorem words_nil_iff (line : Text) : words line = [] ↔ tokenize line = [] := by
  rw [← tokens_are_words, List.map_eq_nil_iff]

namespace Draft

theorem absorb_refused {draft after : Draft} {line : Text} {fault : Fault}
    (refused : draft.absorb (tokenize line) = (after, some fault)) :
    (BeginsDirective line ∧ after = draft) ∨
      (BeginsInstr line ∧ after = { draft with started := true }) := by
  cases tokens : tokenize line with
  | nil =>
      rw [tokens] at refused
      cases refused
  | cons head arguments =>
      have some : words line ≠ [] := by
        rw [Ne, words_nil_iff, tokens]
        exact List.cons_ne_nil head arguments
      rw [tokens, absorb] at refused
      split at refused
      · next directive =>
          left
          refine ⟨(begins_directive_iff tokens).mpr directive, ?_⟩
          split at refused
          · cases refused
          · exact (Prod.mk.inj refused).1.symm
      · next other =>
          right
          refine ⟨⟨some, fun directive => other ((begins_directive_iff tokens).mp directive)⟩, ?_⟩
          split at refused
          · cases refused
          · exact (Prod.mk.inj refused).1.symm

theorem reports_cons (draft : Draft) (number : Nat) (line : Text) (lines : List Text) :
    (draft.absorbLines number (line :: lines)).2 =
      ((draft.absorb (tokenize line)).2.map (Fault.diagnostic number)).toList ++
        ((draft.absorb (tokenize line)).1.absorbLines (number + 1) lines).2 :=
  rfl

theorem absorb_lines_append (draft : Draft) (number : Nat) (front back : List Text) :
    draft.absorbLines number (front ++ back) =
      let first := draft.absorbLines number front
      let second := first.1.absorbLines (number + front.length) back
      (second.1, first.2 ++ second.2) := by
  induction front generalizing draft number with
  | nil => simp [absorbLines]
  | cons line front ih =>
      simp only [List.cons_append, absorbLines, ih, List.length_cons, List.append_assoc]
      rw [Nat.add_right_comm, Nat.add_assoc]

/-- What is reported about a row of lines: each line that is refused behind the lines before it. By
induction on the lines: the first line is refused itself, or one behind it is. -/
theorem reported_iff (lines : List Text) (draft : Draft) (number : Nat) (report : Diagnostic) :
    report ∈ (draft.absorbLines number lines).2 ↔
      ∃ front line back fault, lines = front ++ line :: back ∧
        ((draft.absorbLines number front).1.absorb (tokenize line)).2 = some fault ∧
        report = fault.diagnostic (number + front.length) := by
  constructor
  · intro reported
    induction lines generalizing draft number with
    | nil => cases reported
    | cons line lines ih =>
        rw [reports_cons] at reported
        rcases List.mem_append.mp reported with own | later
        · obtain ⟨fault, refused, rfl⟩ := Option.map_eq_some_iff.mp (Option.mem_toList.mp own)
          exact ⟨[], line, lines, fault, rfl, refused, rfl⟩
        · obtain ⟨front, other, back, fault, rfl, refused, rfl⟩ := ih _ _ later
          refine ⟨line :: front, other, back, fault, rfl, refused, ?_⟩
          rw [List.length_cons, Nat.add_assoc, Nat.add_comm 1]
  · rintro ⟨front, line, back, fault, rfl, refused, rfl⟩
    rw [absorb_lines_append]
    refine List.mem_append_right _ ?_
    rw [reports_cons, refused]
    exact List.mem_append_left _ (List.mem_singleton_self _)

theorem absorb_lines_numbers (lines : List Text) (draft : Draft) (number : Nat)
    (report : Diagnostic) (reported : report ∈ (draft.absorbLines number lines).2) :
    number ≤ report.line ∧ report.line < number + lines.length := by
  obtain ⟨front, line, back, fault, rfl, -, rfl⟩ := (reported_iff _ _ _ _).mp reported
  simp only [Fault.diagnostic, List.length_append, List.length_cons]
  omega

theorem verdict_of_reported {draft : Draft} {number : Nat} {line : Text} {lines : List Text}
    {report : Diagnostic} (reported : report ∈ (draft.absorbLines number (line :: lines)).2)
    (here : report.line = number) :
    ∃ after fault, draft.absorb (tokenize line) = (after, some fault) ∧
      report = fault.diagnostic number := by
  obtain ⟨front, first, back, fault, shape, refused, rfl⟩ := (reported_iff _ _ _ _).mp reported
  have none : front = [] := List.length_eq_zero_iff.mp (Nat.add_eq_left.mp here)
  rw [none, List.nil_append] at shape
  rw [none, (List.cons.inj shape).1.symm] at refused
  exact ⟨_, fault, Prod.ext rfl refused, by rw [none, List.length_nil, Nat.add_zero]⟩

/-- Two drafts that differ in their code at most. -/
structure Agrees (left right : Draft) : Prop where
  header : left.header = right.header
  started : left.started = right.started

theorem Agrees.absorb {left right : Draft} (agrees : Agrees left right) (tokens : List Token) :
    Agrees (left.absorb tokens).1 (right.absorb tokens).1 ∧
      (left.absorb tokens).2 = (right.absorb tokens).2 := by
  obtain ⟨header, started⟩ := agrees
  cases tokens with
  | nil => exact ⟨⟨header, started⟩, rfl⟩
  | cons head arguments =>
      simp only [Draft.absorb, header, started]
      split
      · split
        · exact ⟨⟨rfl, rfl⟩, rfl⟩
        · exact ⟨⟨header, started⟩, rfl⟩
      · split
        · exact ⟨⟨rfl, rfl⟩, rfl⟩
        · exact ⟨⟨rfl, rfl⟩, rfl⟩

/-- No verdict on a line depends on the code so far. -/
theorem Agrees.absorb_lines {left right : Draft} (agrees : Agrees left right) (number : Nat)
    (lines : List Text) :
    (left.absorbLines number lines).2 = (right.absorbLines number lines).2 := by
  induction lines generalizing left right number with
  | nil => rfl
  | cons line lines ih =>
      obtain ⟨onward, same⟩ := agrees.absorb (tokenize line)
      simp only [absorbLines, same, ih onward]

end Draft

/-- All that is reported about a text. -/
def diagnostics (text : Text) : List Diagnostic :=
  match parse text with
  | .ok _ => []
  | .error rejection => rejection.all

/-- The diagnostics that have a line. -/
def located (diagnostics : List Diagnostic) : List Diagnostic :=
  diagnostics.filter fun diagnostic => diagnostic.line ≠ 0

/-- The diagnostics are those of the lines or, of accepted lines that make no program, the
reason. -/
theorem diagnostics_cases (text : Text) :
    diagnostics text = (Draft.blank.absorbLines 1 (Text.lines text)).2 ∨
      ∃ draft error, Draft.blank.absorbLines 1 (Text.lines text) = (draft, []) ∧
        draft.program = .error error ∧ diagnostics text = [.unlocated error.message] := by
  rw [diagnostics, parse]
  rcases absorbed : Draft.blank.absorbLines 1 (Text.lines text) with ⟨draft, _ | ⟨first, others⟩⟩
  · cases made : draft.program with
    | ok program =>
        left
        simp [made]
    | error error =>
        right
        exact ⟨draft, error, rfl, made, by simp [made, Rejection.all]⟩
  · left
    rfl

/-- The loop reports what the recursion does, with every place cut to 32 bits. -/
theorem recover_reads (text : Text) (reports : Reports) :
    recover text reports =
      ((parse text).toOption, ((diagnostics text).map cut).foldl .add reports) := by
  have loop := loop_reads (Text.lines text) .blank 0 false reports
  have start : (0 : UInt32) = .ofNat 0 := rfl
  rw [recover, start, loop, diagnostics, parse]
  rcases absorbed : Draft.blank.absorbLines 1 (Text.lines text) with ⟨draft, _ | ⟨first, others⟩⟩
  · -- A report without a place has nothing to cut.
    cases made : draft.program <;>
      simp [made, Except.toOption, Rejection.all, cut, Diagnostic.unlocated]
  · simp [Except.toOption, Rejection.all]

theorem recovered (text : Text) : (recover text .none).2.all = (diagnostics text).map cut := by
  rw [recover_reads, Reports.all_add_all]
  rfl

/-- The located diagnostics are those of the lines; what is reported about a program as a whole has
no line. -/
theorem located_diagnostics (text : Text) :
    located (diagnostics text) = (Draft.blank.absorbLines 1 (Text.lines text)).2 := by
  rcases diagnostics_cases text with ofLines | ⟨draft, error, accepted, -, whole⟩
  · rw [ofLines]
    refine List.filter_eq_self.mpr fun report reported => ?_
    have bounds := Draft.absorb_lines_numbers _ _ _ _ reported
    simp only [decide_eq_true_eq]
    omega
  · rw [whole, accepted]
    rfl

/-- The list holds a located diagnostic, so it is that of the lines and has no other. -/
theorem located_of_located {text : Text} {report : Diagnostic}
    (place : report ∈ located (diagnostics text)) :
    located (diagnostics text) = diagnostics text := by
  rw [located_diagnostics] at place ⊢
  rcases diagnostics_cases text with ofLines | ⟨draft, error, accepted, -, -⟩
  · exact ofLines.symm
  · rw [accepted] at place
    cases place

theorem located_cut (diagnostics : List Diagnostic) :
    located (diagnostics.map cut) = located ((located diagnostics).map cut) := by
  simp only [located, List.filter_map, List.filter_filter]
  refine congrArg (List.map cut) (List.filter_congr fun diagnostic _ => ?_)
  by_cases whole : diagnostic.line = 0 <;> simp [whole, cut]

/-- Between what stands before it and what stands after it, the line is a whole one. -/
structure WholeLine (before line after : Text) : Prop where
  opened : before.getLast?.all (· == Text.newline) = true
  clean : Text.newline ∉ line
  closed : after.head?.all (· == Text.newline) = true

/-- The number of a line counts the newlines before it. -/
def lineNumber (before : Text) : Nat := before.count Text.newline + 1

theorem lines_before {before : Text} (opened : before.getLast?.all (· == Text.newline) = true) :
    ∃ earlier : List Text, earlier.length = before.count Text.newline ∧
      ∀ rest, Text.lines (before ++ rest) = earlier ++ Text.lines rest := by
  rcases before.eq_nil_or_concat' with rfl | ⟨front, last, rfl⟩
  · exact ⟨[], rfl, fun rest => rfl⟩
  · have newline : last = Text.newline := by simpa using opened
    refine ⟨Text.split Text.newline front, ?_, fun rest => ?_⟩
    · rw [Text.split, Text.length_split_from, newline]
      simp
    · rw [newline, List.append_assoc, List.singleton_append, Text.lines_append]

theorem lines_behind {after : Text} (closed : after.head?.all (· == Text.newline) = true) :
    ∃ later : List Text, ∀ line, Text.newline ∉ line →
      Text.lines (line ++ after) = line :: later ∨
        (line = [] ∧ later = [] ∧ Text.lines (line ++ after) = []) := by
  cases after with
  | nil =>
      refine ⟨[], fun line clean => ?_⟩
      rw [List.append_nil, Text.lines_clean line clean]
      by_cases empty : line = [] <;> simp [empty]
  | cons byte rest =>
      have newline : byte = Text.newline := by simpa using closed
      refine ⟨Text.lines rest, fun line clean => .inl ?_⟩
      rw [newline, Text.lines_cons line rest clean]

/-- The lines of a text by their numbers. By induction on the number: behind the first newline the
numbers begin again. -/
theorem line_numbered (text : Text) (index : Nat) (known : index < (Text.lines text).length) :
    ∃ before line after, text = before ++ line ++ after ∧ WholeLine before line after ∧
      lineNumber before = index + 1 := by
  induction index generalizing text with
  | zero =>
      by_cases newline : Text.newline ∈ text
      · obtain ⟨row, rest, rfl, clean⟩ := List.eq_append_cons_of_mem newline
        exact ⟨[], row, Text.newline :: rest, rfl, ⟨rfl, clean, rfl⟩, rfl⟩
      · exact ⟨[], text, [], by simp, ⟨rfl, newline, rfl⟩, rfl⟩
  | succ index ih =>
      have newline : Text.newline ∈ text := by
        by_contra clean
        rw [Text.lines_clean text clean] at known
        split at known <;> simp at known
      obtain ⟨row, rest, rfl, clean⟩ := List.eq_append_cons_of_mem newline
      rw [Text.lines_cons row rest clean, List.length_cons, Nat.succ_lt_succ_iff] at known
      obtain ⟨before, line, after, rfl, ⟨opened, whole, closed⟩, number⟩ := ih rest known
      refine ⟨row ++ Text.newline :: before, line, after, by simp, ⟨?_, whole, closed⟩, ?_⟩
      · rw [List.getLast?_append]
        cases before with
        | nil => rfl
        | cons byte before => simpa [List.getLast?_cons] using opened
      · rw [lineNumber, List.count_append, List.count_eq_zero_of_not_mem clean,
          List.count_cons_self, Nat.zero_add]
        exact congrArg (· + 1) number

theorem reported_line (text : Text) (report : Diagnostic)
    (reported : report ∈ located (diagnostics text)) :
    ∃ before line after, text = before ++ line ++ after ∧ WholeLine before line after ∧
      report.line = lineNumber before := by
  rw [located_diagnostics] at reported
  obtain ⟨first, last⟩ := Draft.absorb_lines_numbers _ _ _ _ reported
  obtain ⟨before, line, after, shape, whole, number⟩ :=
    line_numbered text (report.line - 1) (by omega)
  exact ⟨before, line, after, shape, whole, by omega⟩

/-- Exchanging a line leaves the draft before it, the verdicts on the lines before it and the lines
behind it as they are. -/
theorem verdicts_around {before after : Text}
    (opened : before.getLast?.all (· == Text.newline) = true)
    (closed : after.head?.all (· == Text.newline) = true) :
    ∃ (front : List Diagnostic) (draft : Draft) (later : List Text),
      (∀ diagnostic ∈ front, diagnostic.line < lineNumber before) ∧
      ∀ line, Text.newline ∉ line →
        located (diagnostics (before ++ line ++ after)) =
          front ++ (draft.absorbLines (lineNumber before) (line :: later)).2 := by
  obtain ⟨earlier, counted, atFront⟩ := lines_before opened
  obtain ⟨later, atBack⟩ := lines_behind closed
  have number : lineNumber before = 1 + earlier.length := by
    rw [lineNumber, counted, Nat.add_comm]
  refine ⟨(Draft.blank.absorbLines 1 earlier).2, (Draft.blank.absorbLines 1 earlier).1, later,
    ?_, ?_⟩
  · intro diagnostic reported
    rw [number]
    exact (Draft.absorb_lines_numbers earlier _ 1 diagnostic reported).2
  · intro line clean
    rw [located_diagnostics, List.append_assoc, atFront, Draft.absorb_lines_append, number]
    rcases atBack line clean with lines | ⟨rfl, rfl, lines⟩
    · rw [lines]
    · rw [lines]
      rfl

/-- What stands for a refused line: a blank line for a directive, and some instruction for an
instruction. -/
def standIn (line : Text) : Text := if BeginsDirective line then "" else "pop"

theorem stand_in_clean (line : Text) : Text.newline ∉ standIn line := by
  rw [standIn]
  split <;> decide

theorem stand_in_agrees {draft after : Draft} {line : Text} {fault : Fault}
    (refused : draft.absorb (tokenize line) = (after, some fault)) :
    (draft.absorb (tokenize (standIn line))).2 = none ∧
      Draft.Agrees (draft.absorb (tokenize (standIn line))).1 after := by
  rcases Draft.absorb_refused refused with ⟨directive, rfl⟩ | ⟨⟨-, other⟩, rfl⟩
  · rw [standIn, if_pos directive]
    exact ⟨rfl, rfl, rfl⟩
  · have pop : Text.ascii "pop" = (Instr.stack .pop).text := rfl
    rw [standIn, if_neg other, pop, absorb_instr]
    exact ⟨rfl, rfl, rfl⟩

/-- The diagnostic of a refused line is the only one of its line, and an exchange takes it away and
leaves all others as they are. -/
theorem diagnostics_exchanged {before line after : Text} (whole : WholeLine before line after)
    {report : Diagnostic} (reported : report ∈ diagnostics (before ++ line ++ after))
    (here : report.line = lineNumber before) :
    ∃ front back, located (diagnostics (before ++ line ++ after)) = front ++ report :: back ∧
      located (diagnostics (before ++ standIn line ++ after)) = front ++ back ∧
      (∀ other ∈ front, other.line < report.line) ∧ ∀ other ∈ back, report.line < other.line := by
  obtain ⟨front, draft, later, earlier, around⟩ := verdicts_around whole.opened whole.closed
  have original := around line whole.clean
  have exchanged := around (standIn line) (stand_in_clean line)
  have member : report ∈ located (diagnostics (before ++ line ++ after)) :=
    List.mem_filter.mpr ⟨reported, by simp [here, lineNumber]⟩
  rw [original, List.mem_append] at member
  have own := member.resolve_left fun known => absurd (earlier report known) (by omega)
  obtain ⟨next, fault, absorbed, rfl⟩ := Draft.verdict_of_reported own here
  obtain ⟨accepted, agrees⟩ := stand_in_agrees absorbed
  refine ⟨front, (next.absorbLines (lineNumber before + 1) later).2, ?_, ?_, earlier, ?_⟩
  · rw [original, Draft.absorbLines, absorbed]
    rfl
  · rw [exchanged, Draft.absorbLines, ← agrees.absorb_lines]
    simp only [accepted]
    rfl
  · intro other known
    exact (Draft.absorb_lines_numbers later next _ other known).1

/-- A line with a diagnostic, exchanged for its stand-in, takes this diagnostic away and leaves all
others as they are, and so do the reports of the loop, in a text of any length. -/
theorem refused_line_leaves_no_trace (before line after : Text)
    (whole : WholeLine before line after) (report : Diagnostic)
    (reported : report ∈ diagnostics (before ++ line ++ after))
    (here : report.line = lineNumber before) :
    ∃ front back, located (diagnostics (before ++ line ++ after)) = front ++ report :: back ∧
      located (diagnostics (before ++ standIn line ++ after)) = front ++ back ∧
      (∀ other ∈ front, other.line < report.line) ∧
      (∀ other ∈ back, report.line < other.line) ∧
      (recover (before ++ line ++ after) .none).2.all = (front ++ report :: back).map cut ∧
      located (recover (before ++ standIn line ++ after) .none).2.all =
        located ((front ++ back).map cut) := by
  obtain ⟨front, back, original, exchanged, earlier, later⟩ :=
    diagnostics_exchanged whole reported here
  have place : report ∈ located (diagnostics (before ++ line ++ after)) := by
    rw [original]
    exact List.mem_append_right front List.mem_cons_self
  refine ⟨front, back, original, exchanged, earlier, later, ?_, ?_⟩
  · rw [recovered, ← original, located_of_located place]
  · rw [recovered, located_cut, exchanged]

/-- A repeated budget goes: the mode before it is still unknown, and the budget behind it is still a
repetition of the first one. -/
theorem refused_budget_leaves_no_trace :
    ∃ front back,
      located (diagnostics (Text.ascii ".jump_mode up\n.max_steps 5\n" ++
          Text.ascii ".max_steps x # no" ++ Text.ascii "\n.max_steps 7\nhalt")) =
        front ++ ⟨.error, "duplicate directive '.max_steps'", 3, 1⟩ :: back ∧
      located (diagnostics (Text.ascii ".jump_mode up\n.max_steps 5\n" ++
          standIn (Text.ascii ".max_steps x # no") ++ Text.ascii "\n.max_steps 7\nhalt")) =
        front ++ back ∧
      (∀ other ∈ front, other.line < 3) ∧
      (∀ other ∈ back, 3 < other.line) ∧
      (recover (Text.ascii ".jump_mode up\n.max_steps 5\n" ++
          Text.ascii ".max_steps x # no" ++ Text.ascii "\n.max_steps 7\nhalt") .none).2.all =
        (front ++ ⟨.error, "duplicate directive '.max_steps'", 3, 1⟩ :: back).map cut ∧
      located (recover (Text.ascii ".jump_mode up\n.max_steps 5\n" ++
          standIn (Text.ascii ".max_steps x # no") ++
            Text.ascii "\n.max_steps 7\nhalt") .none).2.all =
        located ((front ++ back).map cut) :=
  refused_line_leaves_no_trace (Text.ascii ".jump_mode up\n.max_steps 5\n")
    (Text.ascii ".max_steps x # no") (Text.ascii "\n.max_steps 7\nhalt")
    ⟨by decide +kernel, by decide +kernel, by decide +kernel⟩
    ⟨.error, "duplicate directive '.max_steps'", 3, 1⟩ (by decide +kernel) (by decide +kernel)

end StackMachine.Assembly

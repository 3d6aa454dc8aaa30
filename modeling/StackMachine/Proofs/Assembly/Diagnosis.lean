import Mathlib.Data.List.Nodup
import StackMachine.Proofs.Assembly.Columns
import StackMachine.Proofs.Assembly.Grammar
import StackMachine.Proofs.Assembly.Recovery

/-!
# Which lines are refused

A line is malformed for what it says or for what stands before it: a directive behind the first
instruction, a directive that gives no setting or repeats one, an instruction that is none. Of the
lines before it the draft remembers just what decides this, so each malformed line is refused and no
other line is.
-/

namespace StackMachine.Assembly

set_option autoImplicit false

/-- What can be wrong with a line behind these lines. -/
inductive Malformed (before : List Text) (line : Text) : Prop
  | late (directive : BeginsDirective line) (earlier : Text) (behind : earlier ∈ before)
      (instr : BeginsInstr earlier)
  | noSetting (directive : BeginsDirective line)
      (nothing : ∀ setting, ¬DirectiveLine (words line) setting)
  | repeated (setting other : Setting) (earlier : Text) (behind : earlier ∈ before)
      (this : DirectiveLine (words line) setting) (that : DirectiveLine (words earlier) other)
      (same : other.directive = setting.directive)
  | noInstr (instr : BeginsInstr line) (nothing : ∀ instr, ¬InstrLine (words line) instr)

/-- The line with this number, counted from one, is malformed. -/
def MalformedAt (lines : List Text) (number : Nat) : Prop :=
  ∃ front line back, lines = front ++ line :: back ∧ number = front.length + 1 ∧
    Malformed front line

theorem blank_begins_nothing {line : Text} (blank : words line = []) :
    ¬BeginsDirective line ∧ ¬BeginsInstr line := by
  refine ⟨?_, fun instr => instr.1 blank⟩
  rw [BeginsDirective, blank]
  simp

theorem directive_line_begins {line : Text} {setting : Setting}
    (reads : DirectiveLine (words line) setting) : BeginsDirective line := by
  cases tokens : tokenize line with
  | nil =>
      obtain ⟨spelling, shape, -⟩ := reads
      rw [(words_nil_iff line).mpr tokens] at shape
      cases shape
  | cons head arguments =>
      rw [← tokens_are_words, tokens] at reads
      exact (begins_directive_iff tokens).mpr (directive_line_head reads)

theorem directive_line_sets_one {sentence : List Text} {left right : Setting}
    (first : DirectiveLine sentence left) (second : DirectiveLine sentence right) :
    left.directive = right.directive := by
  obtain ⟨_, shape, -⟩ := first
  obtain ⟨_, sameShape, -⟩ := second
  have names : left.directive.name = right.directive.name :=
    (List.cons.inj (shape.symm.trans sameShape)).1
  have found := directive_of_name left.directive
  rw [names, directive_of_name] at found
  exact (Option.some.inj found).symm

theorem instr_line_begins {line : Text} {instr : Instr} (reads : InstrLine (words line) instr) :
    BeginsInstr line := by
  cases tokens : tokenize line with
  | nil =>
      obtain ⟨operand, shape, -⟩ := reads
      rw [(words_nil_iff line).mpr tokens] at shape
      cases shape
  | cons head arguments =>
      rw [← tokens_are_words, tokens] at reads
      obtain ⟨operand, shape, -⟩ := reads
      have name : head.text = instr.opcode.mnemonic := (List.cons.inj shape).1
      have plain := mnemonic_is_no_directive instr.opcode head.column
      rw [← name] at plain
      refine ⟨fun blank => ?_, fun directive => ?_⟩
      · rw [words_nil_iff, tokens] at blank
        cases blank
      · rw [begins_directive_iff tokens] at directive
        exact absurd directive (by simp [plain])

theorem Malformed.nonblank {before : List Text} {line : Text} (malformed : Malformed before line) :
    words line ≠ [] := by
  intro blank
  obtain ⟨noDirective, noInstr⟩ := blank_begins_nothing blank
  cases malformed with
  | late directive => exact noDirective directive
  | noSetting directive => exact noDirective directive
  | repeated setting other earlier behind this => exact noDirective (directive_line_begins this)
  | noInstr instr => exact noInstr instr

namespace Draft

theorem accepts_iff (draft : Draft) {line : Text} (some : words line ≠ []) :
    (draft.absorb (tokenize line)).2 = none ↔
      (draft.started = false ∧ ∃ setting, DirectiveLine (words line) setting ∧
        draft.header.sets setting.directive = false) ∨
      ∃ instr, InstrLine (words line) instr := by
  have nonblank : tokenize line ≠ [] := fun empty => some ((words_nil_iff line).mpr empty)
  have accepted := absorb_iff draft (draft.absorb (tokenize line)).1 (tokenize line) nonblank
  rw [tokens_are_words] at accepted
  constructor
  · intro taken
    rcases accepted.mp (Prod.ext rfl taken) with
      ⟨early, setting, reads, unset, -⟩ | ⟨instr, reads, -⟩
    · exact .inl ⟨early, setting, reads, unset⟩
    · exact .inr ⟨instr, reads⟩
  · have absorbed (after : Draft) := absorb_iff draft after (tokenize line) nonblank
    simp only [tokens_are_words] at absorbed
    rintro (⟨early, setting, reads, unset⟩ | ⟨instr, reads⟩)
    · rw [(absorbed _).mpr (.inl ⟨early, setting, reads, unset, rfl⟩)]
    · rw [(absorbed _).mpr (.inr ⟨instr, reads, rfl⟩)]

/-- The draft knows whether the code has started behind these lines and, until it has, what they
have set. -/
structure Tracks (before : List Text) (draft : Draft) : Prop where
  started : draft.started = true ↔ ∃ earlier ∈ before, BeginsInstr earlier
  sets : draft.started = false → ∀ directive, draft.header.sets directive = true ↔
    ∃ earlier ∈ before, ∃ setting, DirectiveLine (words earlier) setting ∧
      setting.directive = directive

theorem tracks_nothing : Tracks [] .blank := by
  refine ⟨by simp [blank], fun _ directive => ?_⟩
  cases directive <;> simp [blank, Header.blank, Header.sets]

section

variable {before : List Text} {draft : Draft} (tracks : Tracks before draft) {line : Text}
  (some : words line ≠ [])

include tracks some

theorem Tracks.malformed_of_refused (refused : (draft.absorb (tokenize line)).2 ≠ none) :
    Malformed before line := by
  rw [Ne, draft.accepts_iff some, not_or, not_exists] at refused
  by_cases directive : BeginsDirective line
  · cases started : draft.started with
    | true =>
        obtain ⟨earlier, behind, instr⟩ := tracks.started.mp started
        exact .late directive earlier behind instr
    | false =>
        by_cases reads : ∃ setting, DirectiveLine (words line) setting
        · obtain ⟨setting, reads⟩ := reads
          have set : draft.header.sets setting.directive = true := by
            by_contra unset
            exact refused.1 ⟨started, setting, reads, by simpa using unset⟩
          obtain ⟨earlier, behind, other, that, same⟩ := (tracks.sets started _).mp set
          exact .repeated setting other earlier behind reads that same
        · exact .noSetting directive (not_exists.mp reads)
  · exact .noInstr ⟨some, directive⟩ refused.2

theorem Tracks.refused_of_malformed (malformed : Malformed before line) :
    (draft.absorb (tokenize line)).2 ≠ none := by
  rw [Ne, draft.accepts_iff some]
  rintro (⟨early, setting, reads, unset⟩ | ⟨instr, reads⟩)
  · cases malformed with
    | late directive earlier behind instr =>
        rw [tracks.started.mpr ⟨earlier, behind, instr⟩] at early
        cases early
    | noSetting directive nothing => exact nothing setting reads
    | repeated own other earlier behind this that same =>
        have set := (tracks.sets early _).mpr ⟨earlier, behind, other, that, same⟩
        rw [directive_line_sets_one this reads, unset] at set
        cases set
    | noInstr instr nothing => exact instr.2 (directive_line_begins reads)
  · have begins := instr_line_begins reads
    cases malformed with
    | late directive => exact begins.2 directive
    | noSetting directive => exact begins.2 directive
    | repeated own other earlier behind this => exact begins.2 (directive_line_begins this)
    | noInstr _ nothing => exact nothing instr reads

end

theorem Tracks.refuses_iff {before : List Text} {draft : Draft} (tracks : Tracks before draft)
    (line : Text) : (draft.absorb (tokenize line)).2 ≠ none ↔ Malformed before line := by
  by_cases blank : words line = []
  · rw [(words_nil_iff line).mp blank]
    exact ⟨fun refused => absurd rfl refused, fun malformed => absurd blank malformed.nonblank⟩
  · exact ⟨tracks.malformed_of_refused blank, tracks.refused_of_malformed blank⟩

/-- What a line makes of the draft: nothing, and then it has no new setting; its setting; or the
start of the code. -/
theorem absorb_makes (draft : Draft) (line : Text) :
    ((draft.absorb (tokenize line)).1 = draft ∧ ¬BeginsInstr line ∧
      (draft.started = false → ∀ setting, DirectiveLine (words line) setting →
        draft.header.sets setting.directive = true)) ∨
    (∃ setting, (draft.absorb (tokenize line)).1 = draft.settle setting ∧
      draft.started = false ∧ DirectiveLine (words line) setting) ∨
    ((draft.absorb (tokenize line)).1.started = true ∧ BeginsInstr line) := by
  by_cases blank : words line = []
  · left
    rw [(words_nil_iff line).mp blank]
    refine ⟨rfl, (blank_begins_nothing blank).2, fun _ setting reads => ?_⟩
    exact absurd (directive_line_begins reads) (blank_begins_nothing blank).1
  · have accepts := draft.accepts_iff blank
    rcases absorbed : draft.absorb (tokenize line) with ⟨after, _ | fault⟩
    · have nonblank : tokenize line ≠ [] := fun empty => blank ((words_nil_iff line).mpr empty)
      have taken := (absorb_iff draft after (tokenize line) nonblank).mp absorbed
      rw [tokens_are_words] at taken
      rcases taken with ⟨early, setting, reads, -, rfl⟩ | ⟨instr, reads, rfl⟩
      · exact .inr (.inl ⟨setting, rfl, early, reads⟩)
      · exact .inr (.inr ⟨rfl, instr_line_begins reads⟩)
    · rw [absorbed] at accepts
      rcases absorb_refused absorbed with ⟨directive, rfl⟩ | ⟨instr, rfl⟩
      · refine .inl ⟨rfl, fun instr => instr.2 directive, fun early setting reads => ?_⟩
        by_contra unset
        cases accepts.mpr (.inl ⟨early, setting, reads, by simpa using unset⟩)
      · exact .inr (.inr ⟨rfl, instr⟩)

theorem Tracks.absorb {before : List Text} {draft : Draft} (tracks : Tracks before draft)
    (line : Text) : Tracks (before ++ [line]) (draft.absorb (tokenize line)).1 := by
  have behind (holds : Text → Prop) : (∃ earlier ∈ before ++ [line], holds earlier) ↔
      (∃ earlier ∈ before, holds earlier) ∨ holds line := by
    simp [or_and_right, exists_or]
  rcases draft.absorb_makes line with
    ⟨kept, noInstr, nothingNew⟩ | ⟨setting, settled, early, reads⟩ | ⟨started, instr⟩
  · rw [kept]
    refine ⟨?_, fun early directive => ?_⟩
    · rw [behind, tracks.started]
      simp [noInstr]
    · rw [behind, ← tracks.sets early directive]
      refine ⟨.inl, fun known => known.elim id ?_⟩
      rintro ⟨setting, reads, rfl⟩
      exact nothingNew early setting reads
  · rw [settled]
    have noInstr : ¬BeginsInstr line := fun instr => instr.2 (directive_line_begins reads)
    refine ⟨?_, fun _ directive => ?_⟩
    · rw [behind]
      simp [settle, tracks.started, noInstr]
    · have own : (∃ other, DirectiveLine (words line) other ∧ other.directive = directive) ↔
          setting.directive = directive := by
        constructor
        · rintro ⟨other, same, rfl⟩
          exact directive_line_sets_one reads same
        · exact fun same => ⟨setting, reads, same⟩
      rw [behind, ← tracks.sets early directive, own, settle, ← Bool.not_eq_false,
        Header.sets_of_extend]
      simp [imp_iff_not_or, or_comm]
  · refine ⟨?_, fun early => ?_⟩
    · simp [started, instr]
    · rw [started] at early
      cases early

theorem tracks_lines (lines : List Text) : Tracks lines (blank.absorbLines 1 lines).1 := by
  induction lines using List.reverseRecOn with
  | nil => exact tracks_nothing
  | append_singleton lines line ih =>
      rw [absorb_lines_append]
      exact ih.absorb line

theorem absorb_lines_ordered (lines : List Text) (draft : Draft) (number : Nat) :
    ((draft.absorbLines number lines).2.map Diagnostic.line).Pairwise (· < ·) := by
  induction lines generalizing draft number with
  | nil => exact .nil
  | cons line lines ih =>
      rw [absorbLines]
      rcases draft.absorb (tokenize line) with ⟨after, _ | fault⟩
      · exact ih after (number + 1)
      · refine .cons (fun later known => ?_) (ih after (number + 1))
        obtain ⟨diagnostic, reported, rfl⟩ := List.mem_map.mp known
        exact (absorb_lines_numbers lines after (number + 1) diagnostic reported).1

end Draft

/-- Every malformed line is reported once and no other line is, in the order of the lines, each at
a word that it has. -/
structure LineByLine (lines : List Text) (diagnostics : List Diagnostic) : Prop where
  once : ∀ number, MalformedAt lines number → (diagnostics.map Diagnostic.line).count number = 1
  only : ∀ number, ¬MalformedAt lines number → (diagnostics.map Diagnostic.line).count number = 0
  ordered : (diagnostics.map Diagnostic.line).Pairwise (· < ·)
  placed : ∀ diagnostic ∈ diagnostics, 1 ≤ diagnostic.line ∧
    ∃ line word, lines[diagnostic.line - 1]? = some line ∧ WordAt line diagnostic.column word

/-- No line is malformed, but of the settings and the code that the lines spell no program is made.
The reason is reported, without a place. -/
structure AsWhole (lines : List Text) (diagnostics : List Diagnostic) : Prop where
  accepted : ∀ number, ¬MalformedAt lines number
  refused : ∃ settings code maxSteps jumpMode inputMode error,
    Spells (sentences lines) settings code ∧ (settings.map Setting.directive).Nodup ∧
      Chosen settings .maxSteps 64 maxSteps ∧ Chosen settings .jumpMode .error jumpMode ∧
      Chosen settings .inputMode .direct inputMode ∧
      Program.create code maxSteps jumpMode inputMode = .error error ∧
      diagnostics = [.unlocated error.message]

theorem lines_diagnosed (lines : List Text) :
    LineByLine lines (Draft.blank.absorbLines 1 lines).2 := by
  have ordered := Draft.absorb_lines_ordered lines .blank 1
  have malformed_iff (number : Nat) : MalformedAt lines number ↔
      number ∈ (Draft.blank.absorbLines 1 lines).2.map Diagnostic.line := by
    rw [List.mem_map]
    constructor
    · rintro ⟨front, line, back, rfl, rfl, malformed⟩
      have refused := ((Draft.tracks_lines front).refuses_iff line).mpr malformed
      obtain ⟨fault, refused⟩ := Option.ne_none_iff_exists'.mp refused
      exact ⟨_, (Draft.reported_iff _ _ _ _).mpr ⟨front, line, back, fault, rfl, refused, rfl⟩,
        Nat.add_comm 1 front.length⟩
    · rintro ⟨diagnostic, reported, rfl⟩
      obtain ⟨front, line, back, fault, rfl, refused, rfl⟩ :=
        (Draft.reported_iff _ _ _ _).mp reported
      refine ⟨front, line, back, rfl, Nat.add_comm 1 front.length, ?_⟩
      exact ((Draft.tracks_lines front).refuses_iff line).mp (by simp [refused])
  refine ⟨fun number malformed => ?_, fun number sound => ?_, ordered, ?_⟩
  · exact List.count_eq_one_of_mem (ordered.imp Nat.ne_of_lt) ((malformed_iff number).mp malformed)
  · exact List.count_eq_zero.mpr fun known => sound ((malformed_iff number).mpr known)
  · intro diagnostic reported
    obtain ⟨front, line, back, fault, rfl, refused, rfl⟩ := (Draft.reported_iff _ _ _ _).mp reported
    obtain ⟨word, place⟩ := fault_placed refused
    exact ⟨Nat.le_add_right 1 _, line, word, by simp [Fault.diagnostic], place⟩

/-- Of accepted lines that make no program only the reason is reported. -/
theorem whole_diagnosed {lines : List Text} {draft : Draft} {error : ProgramError}
    (accepted : Draft.blank.absorbLines 1 lines = (draft, []))
    (refused : draft.program = .error error) :
    AsWhole lines [.unlocated error.message] := by
  refine ⟨fun number malformed => ?_, ?_⟩
  · have once := (lines_diagnosed lines).once number malformed
    rw [accepted] at once
    cases once
  · obtain ⟨settings, code, spells, continues⟩ := (absorb_lines_iff _ _ _ _).mp accepted
    obtain ⟨once, rfl⟩ := (continues_blank _ _ _).mp continues
    rw [Draft.program, List.reverse_reverse] at refused
    exact ⟨settings, code, _, _, _, error, spells, once,
      (chosen_iff _ _ _ (max_steps_given once) _ _).mpr rfl,
      (chosen_iff _ _ _ (jump_mode_given once) _ _).mpr rfl,
      (chosen_iff _ _ _ (input_mode_given once) _ _).mpr rfl, refused, rfl⟩

/-- What is reported about a text explains its refusal, line by line or as a whole. -/
theorem diagnostics_explain (text : Text) :
    LineByLine (rows text) (diagnostics text) ∨ AsWhole (rows text) (diagnostics text) := by
  rw [← lines_are_rows]
  rcases diagnostics_cases text with ofLines | ⟨draft, error, accepted, refused, whole⟩
  · rw [ofLines]
    exact .inl (lines_diagnosed (Text.lines text))
  · rw [whole]
    exact .inr (whole_diagnosed accepted refused)

end StackMachine.Assembly

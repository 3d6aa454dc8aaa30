import Mathlib.Data.List.Forall2
import StackMachine.Assembly.Source
import StackMachine.Proofs.Assembly.Literal
import StackMachine.Proofs.Assembly.Words
import StackMachine.Proofs.Listing

/-!
# The grammar of assembly texts

A text is grammatical when its lines, the blank ones left out, are directive lines followed by
instruction lines, no directive comes twice, there is a halt in the code and the budget is positive.
The reader accepts the grammatical texts and nothing else, and makes of each the program it
describes.

The reader keeps its findings in a draft, so the induction over the lines starts from any draft: the
settings that follow must be new to its header, and there are none once the code has started.
-/

namespace StackMachine.Assembly

set_option autoImplicit false

/-- What a directive line settles. -/
inductive Setting where
  | maxSteps (value : Word)
  | jumpMode (mode : JumpMode)
  | inputMode (mode : InputMode)
deriving DecidableEq, Repr

namespace Setting

def directive : Setting → Directive
  | .maxSteps _ => .maxSteps
  | .jumpMode _ => .jumpMode
  | .inputMode _ => .inputMode

/-- The spellings of the value that a setting gives. -/
def Spelled (spelling : Text) : Setting → Prop
  | .maxSteps value => Decimal.Literal spelling value
  | .jumpMode mode => mode.name = spelling
  | .inputMode mode => mode.name = spelling

end Setting

/-- The name of a directive and one value. -/
def DirectiveLine (sentence : List Text) (setting : Setting) : Prop :=
  ∃ spelling, sentence = [setting.directive.name, spelling] ∧ setting.Spelled spelling

/-- One literal for an operand, and no word where there is none. -/
def OperandWords (sentence : List Text) : Option Word → Prop
  | none => sentence = []
  | some operand => ∃ spelling, sentence = [spelling] ∧ Decimal.Literal spelling operand

/-- A mnemonic and the operand that its opcode takes. -/
def InstrLine (sentence : List Text) (instr : Instr) : Prop :=
  ∃ operand, sentence = instr.opcode.mnemonic :: operand ∧ OperandWords operand instr.operand?

/-- Directive lines with these settings, and then instruction lines with this code. -/
def Spells (sentences : List (List Text)) (settings : List Setting) (code : List Instr) : Prop :=
  ∃ header body, sentences = header ++ body ∧ List.Forall₂ DirectiveLine header settings ∧
    List.Forall₂ InstrLine body code

/-- What is asked of the settings and the code as a whole. -/
structure WellFormed (settings : List Setting) (code : List Instr) : Prop where
  once : (settings.map Setting.directive).Nodup
  halts : Instr.halt ∈ code
  positive : ∀ value, Setting.maxSteps value ∈ settings → 1 ≤ value

def Grammatical (text : Text) : Prop :=
  ∃ settings code, Spells (sentences (rows text)) settings code ∧ WellFormed settings code

/-- The value that a setting gives, or the default where no setting gives one. -/
def Chosen {α : Type} (settings : List Setting) (make : α → Setting) (default value : α) : Prop :=
  make value ∈ settings ∨ (∀ other, make other ∉ settings) ∧ value = default

/-- The program is the code of the text, under its settings. -/
structure Describes (text : Text) (settings : List Setting) (program : Program) : Prop where
  spells : Spells (sentences (rows text)) settings program.code
  wellFormed : WellFormed settings program.code
  maxSteps : Chosen settings .maxSteps 64 program.maxSteps
  jumpMode : Chosen settings .jumpMode .error program.jumpMode
  inputMode : Chosen settings .inputMode .direct program.inputMode

section

variable {α : Type} {items : List α} {name : α → Text}

theorem find_named (finds : ∀ item, (items.find? fun other => name other = name item) = some item)
    (wanted : Text) (item : α) :
    (items.find? fun other => name other = wanted) = some item ↔ name item = wanted := by
  constructor
  · intro found
    simpa using List.find?_some found
  · rintro rfl
    exact finds item

end

theorem directive_named (name : Text) (directive : Directive) :
    Directive.ofName? name = some directive ↔ directive.name = name :=
  find_named directive_of_name name directive

theorem jump_mode_named (name : Text) (mode : JumpMode) :
    JumpMode.ofName? name = some mode ↔ mode.name = name :=
  find_named jump_mode_of_name name mode

theorem input_mode_named (name : Text) (mode : InputMode) :
    InputMode.ofName? name = some mode ↔ mode.name = name :=
  find_named input_mode_of_name name mode

theorem opcode_named (name : Text) (opcode : Opcode) :
    Opcode.ofMnemonic? name = some opcode ↔ opcode.mnemonic = name :=
  find_named of_mnemonic_mnemonic name opcode

namespace Header

def extend (header : Header) : Setting → Header
  | .maxSteps value => { header with maxSteps := some value }
  | .jumpMode mode => { header with jumpMode := some mode }
  | .inputMode mode => { header with inputMode := some mode }

def setting? (header : Header) : Directive → Option Setting
  | .maxSteps => header.maxSteps.map .maxSteps
  | .jumpMode => header.jumpMode.map .jumpMode
  | .inputMode => header.inputMode.map .inputMode

theorem sets_as_setting (header : Header) (directive : Directive) :
    header.sets directive = (header.setting? directive).isSome := by
  cases directive <;> simp [sets, setting?]

theorem setting_of_extend (header : Header) (setting : Setting) (directive : Directive) :
    (header.extend setting).setting? directive =
      if setting.directive = directive then some setting else header.setting? directive := by
  cases setting <;> cases directive <;> rfl

theorem sets_of_extend (header : Header) (setting : Setting) (directive : Directive) :
    (header.extend setting).sets directive = false ↔
      setting.directive ≠ directive ∧ header.sets directive = false := by
  rw [sets_as_setting, sets_as_setting, setting_of_extend]
  split <;> simp_all

theorem set_iff (header after : Header) (directive : Directive) (value : Token) :
    header.set directive value = .ok after ↔
      ∃ setting : Setting, setting.directive = directive ∧ setting.Spelled value.text ∧
        header.extend setting = after := by
  constructor
  · intro accepted
    cases directive with
    | maxSteps =>
        simp only [set] at accepted
        split at accepted
        · next word read =>
            exact ⟨.maxSteps word, rfl, (Decimal.literal_iff _ _).mp read, Except.ok.inj accepted⟩
        · cases accepted
    | jumpMode =>
        simp only [set] at accepted
        split at accepted
        · next mode read =>
            exact ⟨.jumpMode mode, rfl, (jump_mode_named _ _).mp read, Except.ok.inj accepted⟩
        · cases accepted
    | inputMode =>
        simp only [set] at accepted
        split at accepted
        · next mode read =>
            exact ⟨.inputMode mode, rfl, (input_mode_named _ _).mp read, Except.ok.inj accepted⟩
        · cases accepted
  · rintro ⟨setting, rfl, spelled, rfl⟩
    cases setting with
    | maxSteps word =>
        have read := (Decimal.literal_iff value.text word).mpr spelled
        simp only [set, Setting.directive, read, extend]
    | jumpMode mode =>
        have read := (jump_mode_named value.text mode).mpr spelled
        simp only [set, Setting.directive, read, extend]
    | inputMode mode =>
        have read := (input_mode_named value.text mode).mpr spelled
        simp only [set, Setting.directive, read, extend]

theorem read_iff (header after : Header) (started : Bool) (head : Token)
    (arguments : List Token) :
    header.read started head arguments = .ok after ↔
      started = false ∧ ∃ setting : Setting,
        DirectiveLine ((head :: arguments).map Token.text) setting ∧
          header.sets setting.directive = false ∧ header.extend setting = after := by
  constructor
  · intro accepted
    unfold read at accepted
    split at accepted
    · cases accepted
    · next early =>
        refine ⟨by simpa using early, ?_⟩
        split at accepted
        · cases accepted
        · cases accepted
        · next value =>
            split at accepted
            · cases accepted
            · next directive named =>
                split at accepted
                · cases accepted
                · next unset =>
                    obtain ⟨setting, rfl, spelled, extended⟩ := (set_iff _ _ _ _).mp accepted
                    have name := (directive_named _ _).mp named
                    exact ⟨setting, ⟨value.text, by simp [name], spelled⟩, by simpa using unset,
                      extended⟩
  · rintro ⟨rfl, setting, ⟨spelling, shape, spelled⟩, unset, extended⟩
    obtain ⟨value, rfl⟩ : ∃ value, arguments = [value] := by
      have one : (arguments.map Token.text).length = 1 := by
        rw [List.map_cons, List.cons.injEq] at shape
        rw [shape.2, List.length_singleton]
      exact List.length_eq_one_iff.mp (by simpa using one)
    simp only [List.map_cons, List.map_nil, List.cons.injEq, and_true] at shape
    have named := (directive_named head.text setting.directive).mpr shape.1.symm
    have accepted := (set_iff header after setting.directive value).mpr
      ⟨setting, rfl, by rw [shape.2]; exact spelled, extended⟩
    simp only [read, Bool.false_eq_true, if_false, named, unset, accepted]

end Header

theorem directive_line_head {head : Token} {arguments : List Token} {setting : Setting}
    (line : DirectiveLine ((head :: arguments).map Token.text) setting) :
    head.isDirective = true := by
  obtain ⟨spelling, shape, -⟩ := line
  have name : head.text = setting.directive.name := by
    rw [List.map_cons, List.cons.injEq] at shape
    exact shape.1
  have point := directive_name_is_directive setting.directive head.column
  rwa [← name] at point

theorem make_iff (opcode : Opcode) (operand : Option Word) (instr : Instr) :
    Instr.make opcode operand = .ok instr ↔ instr.opcode = opcode ∧ instr.operand? = operand := by
  constructor
  · intro made
    unfold Instr.make at made
    split at made <;> cases made <;> exact ⟨rfl, rfl⟩
  · rintro ⟨rfl, rfl⟩
    exact make_opcode_operand instr

theorem read_operand_iff (arguments : List Token) (operand : Option Word) :
    readOperand arguments = .ok operand ∧ arguments.length ≤ operand.toList.length ↔
      OperandWords (arguments.map Token.text) operand := by
  constructor
  · rintro ⟨accepted, few⟩
    cases arguments with
    | nil =>
        cases accepted
        rfl
    | cons token others =>
        simp only [readOperand] at accepted
        split at accepted
        · next value read =>
            cases accepted
            have last : others = [] := by simpa using few
            rw [last]
            exact ⟨token.text, rfl, (Decimal.literal_iff _ _).mp read⟩
        · cases accepted
  · intro spelled
    cases operand with
    | none =>
        have empty : arguments = [] := List.map_eq_nil_iff.mp spelled
        rw [empty]
        exact ⟨rfl, Nat.le_refl 0⟩
    | some value =>
        obtain ⟨spelling, shape, literal⟩ := spelled
        obtain ⟨token, rfl, rfl⟩ := List.map_eq_singleton_iff.mp shape
        simp only [readOperand, (Decimal.literal_iff _ _).mpr literal]
        exact ⟨trivial, Nat.le_refl 1⟩

theorem read_instr_iff (head : Token) (arguments : List Token) (instr : Instr) :
    readInstr head arguments = .ok instr ↔
      InstrLine ((head :: arguments).map Token.text) instr := by
  constructor
  · intro accepted
    unfold readInstr at accepted
    split at accepted
    · cases accepted
    · next opcode named =>
        split at accepted
        · cases accepted
        · next noExtra =>
            split at accepted
            · cases accepted
            · next operand read =>
                split at accepted
                · next made joined =>
                    cases accepted
                    obtain ⟨rfl, rfl⟩ := (make_iff _ _ _).mp joined
                    have few : arguments.length ≤ instr.operand?.toList.length := by
                      rw [← operand_count_of_instr]
                      exact List.getElem?_eq_none_iff.mp noExtra
                    refine ⟨arguments.map Token.text, ?_, (read_operand_iff _ _).mp ⟨read, few⟩⟩
                    rw [List.map_cons, (opcode_named _ _).mp named]
                · cases accepted
  · rintro ⟨spellings, shape, spelled⟩
    rw [List.map_cons, List.cons.injEq] at shape
    obtain ⟨mnemonic, rfl⟩ := shape
    obtain ⟨read, few⟩ := (read_operand_iff _ _).mpr spelled
    have named := (opcode_named head.text instr.opcode).mpr mnemonic.symm
    have noExtra : arguments[operandCount instr.opcode]? = none := by
      rw [← operand_count_of_instr] at few
      exact List.getElem?_eq_none_iff.mpr few
    simp only [readInstr, named, noExtra, read, make_opcode_operand]

/-- The draft after a directive line. -/
def Draft.settle (draft : Draft) (setting : Setting) : Draft :=
  { draft with header := draft.header.extend setting }

def Draft.lengthen (draft : Draft) (instr : Instr) : Draft :=
  { draft with code := instr :: draft.code, started := true }

/-- All that an accepted line can be, and what it makes of the draft. -/
theorem absorb_iff (draft after : Draft) (tokens : List Token) (nonblank : tokens ≠ []) :
    draft.absorb tokens = (after, none) ↔
      (draft.started = false ∧ ∃ setting : Setting,
        DirectiveLine (tokens.map Token.text) setting ∧
          draft.header.sets setting.directive = false ∧ draft.settle setting = after) ∨
      ∃ instr : Instr, InstrLine (tokens.map Token.text) instr ∧ draft.lengthen instr = after := by
  obtain ⟨head, arguments, rfl⟩ := List.exists_cons_of_ne_nil nonblank
  constructor
  · intro absorbed
    rw [Draft.absorb] at absorbed
    split at absorbed
    · split at absorbed
      · next header read =>
          obtain ⟨early, setting, line, unset, rfl⟩ := (Header.read_iff _ _ _ _ _).mp read
          exact .inl ⟨early, setting, line, unset, (Prod.mk.inj absorbed).1⟩
      · cases absorbed
    · split at absorbed
      · next instr read =>
          exact .inr ⟨instr, (read_instr_iff _ _ _).mp read, (Prod.mk.inj absorbed).1⟩
      · cases absorbed
  · rintro (⟨early, setting, line, unset, rfl⟩ | ⟨instr, line, rfl⟩)
    · have read := (Header.read_iff draft.header (draft.header.extend setting) draft.started
        head arguments).mpr ⟨early, setting, line, unset, rfl⟩
      rw [Draft.absorb, if_pos (directive_line_head line), read, Draft.settle]
    · have read := (read_instr_iff head arguments instr).mpr line
      obtain ⟨operand, shape, -⟩ := line
      have name : head.text = instr.opcode.mnemonic := (List.cons.inj shape).1
      have noPoint : ¬head.isDirective = true := by
        have mnemonic := mnemonic_is_no_directive instr.opcode head.column
        rw [← name] at mnemonic
        simp [mnemonic]
      rw [Draft.absorb, if_neg noPoint, read, Draft.lengthen]

/-- What the settings and the code of the lines make of a draft, and what they have to respect. -/
structure Continues (draft : Draft) (settings : List Setting) (code : List Instr)
    (after : Draft) : Prop where
  order : draft.started = true → settings = []
  unset : ∀ setting ∈ settings, draft.header.sets setting.directive = false
  once : (settings.map Setting.directive).Nodup
  settled : settings.foldl Header.extend draft.header = after.header
  lengthened : code.reverse ++ draft.code = after.code
  started : (draft.started || !code.isEmpty) = after.started

theorem continues_nothing (draft after : Draft) :
    Continues draft [] [] after ↔ draft = after := by
  constructor
  · rintro ⟨-, -, -, settled, lengthened, started⟩
    cases draft
    cases after
    simp_all
  · rintro rfl
    exact ⟨fun _ => rfl, by simp, by simp, rfl, rfl, by simp⟩

theorem continues_setting (draft after : Draft) (setting : Setting) (settings : List Setting)
    (code : List Instr) :
    Continues draft (setting :: settings) code after ↔
      draft.started = false ∧ draft.header.sets setting.directive = false ∧
        Continues (draft.settle setting) settings code after := by
  constructor
  · rintro ⟨order, unset, once, settled, lengthened, started⟩
    have early : draft.started = false := by
      cases late : draft.started with
      | false => rfl
      | true => cases order late
    rw [List.map_cons, List.nodup_cons] at once
    refine ⟨early, unset setting (by simp), fun late => ?_, fun other member => ?_, once.2,
      settled, lengthened, started⟩
    · exact absurd late (by simp [Draft.settle, early])
    · rw [Draft.settle, Header.sets_of_extend]
      refine ⟨fun same => once.1 ?_, unset other (List.mem_cons_of_mem _ member)⟩
      rw [same]
      exact List.mem_map_of_mem member
  · rintro ⟨early, fresh, ⟨-, unset, once, settled, lengthened, started⟩⟩
    have new (other : Setting) (member : other ∈ settings) :=
      (Header.sets_of_extend draft.header setting other.directive).mp (unset other member)
    refine ⟨fun late => ?_, fun other member => ?_, ?_, settled, lengthened, started⟩
    · exact absurd late (by simp [early])
    · rcases List.mem_cons.mp member with rfl | later
      · exact fresh
      · exact (new other later).2
    · rw [List.map_cons, List.nodup_cons]
      refine ⟨fun member => ?_, once⟩
      obtain ⟨other, later, same⟩ := List.mem_map.mp member
      exact (new other later).1 same.symm

theorem continues_instr (draft after : Draft) (instr : Instr) (code : List Instr) :
    Continues draft [] (instr :: code) after ↔
      Continues (draft.lengthen instr) [] code after := by
  have reversed : (instr :: code).reverse ++ draft.code =
      code.reverse ++ (instr :: draft.code) := by simp
  constructor
  · rintro ⟨-, -, -, settled, lengthened, started⟩
    exact ⟨fun _ => rfl, by simp, by simp, settled, reversed ▸ lengthened,
      by simpa [Draft.lengthen] using started⟩
  · rintro ⟨-, -, -, settled, lengthened, started⟩
    exact ⟨fun _ => rfl, by simp, by simp, settled, reversed.trans lengthened,
      by simpa [Draft.lengthen] using started⟩

theorem spells_nothing (settings : List Setting) (code : List Instr) :
    Spells [] settings code ↔ settings = [] ∧ code = [] := by
  constructor
  · rintro ⟨header, body, empty, directives, instrs⟩
    obtain ⟨rfl, rfl⟩ := List.append_eq_nil_iff.mp empty.symm
    exact ⟨List.forall₂_nil_left_iff.mp directives, List.forall₂_nil_left_iff.mp instrs⟩
  · rintro ⟨rfl, rfl⟩
    exact ⟨[], [], rfl, .nil, .nil⟩

/-- The first line is a directive line, or it begins the code and no directive line follows. -/
theorem spells_line (sentence : List Text) (sentences : List (List Text))
    (settings : List Setting) (code : List Instr) :
    Spells (sentence :: sentences) settings code ↔
      (∃ setting others, settings = setting :: others ∧ DirectiveLine sentence setting ∧
        Spells sentences others code) ∨
      settings = [] ∧ ∃ instr others, code = instr :: others ∧ InstrLine sentence instr ∧
        Spells sentences [] others := by
  constructor
  · rintro ⟨header, body, shape, directives, instrs⟩
    cases directives with
    | nil =>
        rw [List.nil_append] at shape
        rw [← shape] at instrs
        obtain ⟨instr, others, line, rest, rfl⟩ := List.forall₂_cons_left_iff.mp instrs
        exact .inr ⟨rfl, instr, others, rfl, line, [], sentences, rfl, .nil, rest⟩
    | cons line rest =>
        obtain ⟨rfl, rfl⟩ := List.cons.inj shape
        exact .inl ⟨_, _, rfl, line, _, body, rfl, rest, instrs⟩
  · rintro (⟨setting, others, rfl, line, header, body, rfl, directives, instrs⟩ |
      ⟨rfl, instr, others, rfl, line, header, body, rfl, directives, instrs⟩)
    · exact ⟨sentence :: header, body, rfl, .cons line directives, instrs⟩
    · rw [List.forall₂_nil_right_iff.mp directives, List.nil_append]
      exact ⟨[], sentence :: body, rfl, .nil, .cons line instrs⟩

theorem absorb_lines_line (draft after : Draft) (number : Nat) (line : Text) (lines : List Text) :
    draft.absorbLines number (line :: lines) = (after, []) ↔
      ∃ middle : Draft, draft.absorb (tokenize line) = (middle, none) ∧
        middle.absorbLines (number + 1) lines = (after, []) := by
  rw [Draft.absorbLines]
  rcases draft.absorb (tokenize line) with ⟨middle, _ | fault⟩
  · simp [Prod.ext_iff]
  · simp

/-- By induction on the lines, from any draft: a blank line changes nothing, a directive line moves
its setting from what is still to come into the header, and an instruction line starts the code. -/
theorem absorb_lines_iff (lines : List Text) (draft after : Draft) (number : Nat) :
    draft.absorbLines number lines = (after, []) ↔
      ∃ settings code, Spells (sentences lines) settings code ∧
        Continues draft settings code after := by
  induction lines generalizing draft number with
  | nil =>
      have empty : sentences [] = [] := rfl
      simp only [empty, spells_nothing, Draft.absorbLines, Prod.mk.injEq, and_true]
      constructor
      · rintro rfl
        exact ⟨[], [], ⟨rfl, rfl⟩, (continues_nothing draft draft).mpr rfl⟩
      · rintro ⟨_, _, ⟨rfl, rfl⟩, continues⟩
        exact (continues_nothing draft after).mp continues
  | cons line lines ih =>
      rw [absorb_lines_line]
      by_cases blank : tokenize line = []
      · rw [sentences_blank line lines blank, ← ih draft (number + 1), blank]
        simp [Draft.absorb]
      · rw [sentences_words line lines blank]
        constructor
        · rintro ⟨middle, absorbed, rest⟩
          obtain ⟨settings, code, spells, continues⟩ := (ih middle (number + 1)).mp rest
          rcases (absorb_iff draft middle _ blank).mp absorbed with
            ⟨early, setting, directive, unset, rfl⟩ | ⟨instr, instruction, rfl⟩
          · exact ⟨setting :: settings, code,
              (spells_line _ _ _ _).mpr (.inl ⟨setting, settings, rfl, directive, spells⟩),
              (continues_setting _ _ _ _ _).mpr ⟨early, unset, continues⟩⟩
          · obtain rfl : settings = [] := continues.order rfl
            exact ⟨[], instr :: code,
              (spells_line _ _ _ _).mpr (.inr ⟨rfl, instr, code, rfl, instruction, spells⟩),
              (continues_instr _ _ _ _).mpr continues⟩
        · rintro ⟨settings, code, spells, continues⟩
          rcases (spells_line _ _ _ _).mp spells with
            ⟨setting, others, rfl, directive, rest⟩ | ⟨rfl, instr, others, rfl, instruction, rest⟩
          · obtain ⟨early, unset, onward⟩ := (continues_setting _ _ _ _ _).mp continues
            exact ⟨draft.settle setting,
              (absorb_iff _ _ _ blank).mpr (.inl ⟨early, setting, directive, unset, rfl⟩),
              (ih _ _).mpr ⟨others, code, rest, onward⟩⟩
          · exact ⟨draft.lengthen instr,
              (absorb_iff _ _ _ blank).mpr (.inr ⟨instr, instruction, rfl⟩),
              (ih _ _).mpr ⟨[], others, rest, (continues_instr _ _ _ _).mp continues⟩⟩

theorem create_iff (code : List Instr) (maxSteps : Word) (jumpMode : JumpMode)
    (inputMode : InputMode) (program : Program) :
    Program.create code maxSteps jumpMode inputMode = .ok program ↔
      program.code = code ∧ program.maxSteps = maxSteps ∧ program.jumpMode = jumpMode ∧
        program.inputMode = inputMode := by
  constructor
  · intro created
    unfold Program.create at created
    split at created
    · cases created
    · split at created
      · split at created
        · cases created
          exact ⟨rfl, rfl, rfl, rfl⟩
        · cases created
      · cases created
  · rintro ⟨rfl, rfl, rfl, rfl⟩
    exact create_fields program

theorem setting_of_settings (settings : List Setting) (header : Header)
    (once : (settings.map Setting.directive).Nodup)
    (unset : ∀ setting ∈ settings, header.sets setting.directive = false) (directive : Directive)
    (setting : Setting) :
    (settings.foldl Header.extend header).setting? directive = some setting ↔
      setting ∈ settings ∧ setting.directive = directive ∨
        header.setting? directive = some setting := by
  induction settings generalizing header with
  | nil => simp
  | cons first settings ih =>
      rw [List.map_cons, List.nodup_cons] at once
      have later : ∀ other ∈ settings, (header.extend first).sets other.directive = false := by
        intro other member
        refine (Header.sets_of_extend _ _ _).mpr ⟨fun same => once.1 ?_,
          unset other (List.mem_cons_of_mem _ member)⟩
        rw [same]
        exact List.mem_map_of_mem member
      rw [List.foldl_cons, ih (header.extend first) once.2 later, Header.setting_of_extend]
      by_cases same : first.directive = directive
      · have free : header.setting? directive = none := by
          have fresh := unset first (by simp)
          rw [Header.sets_as_setting, same] at fresh
          simpa using fresh
        rw [if_pos same, free, List.mem_cons]
        constructor
        · rintro (⟨member, named⟩ | given)
          · exact .inl ⟨.inr member, named⟩
          · obtain rfl := Option.some.inj given
            exact .inl ⟨.inl rfl, same⟩
        · rintro (⟨rfl | member, named⟩ | given)
          · exact .inr rfl
          · exact .inl ⟨member, named⟩
          · cases given
      · rw [if_neg same, List.mem_cons]
        constructor
        · rintro (⟨member, named⟩ | given)
          · exact .inl ⟨.inr member, named⟩
          · exact .inr given
        · rintro (⟨rfl | member, named⟩ | given)
          · exact absurd named same
          · exact .inl ⟨member, named⟩
          · exact .inr given

theorem chosen_iff {α : Type} (settings : List Setting) (make : α → Setting) (field : Option α)
    (given : ∀ value, field = some value ↔ make value ∈ settings) (default value : α) :
    Chosen settings make default value ↔ field.getD default = value := by
  simp only [Chosen, ← given]
  cases field with
  | none => simp [eq_comm]
  | some other => simp

def headerOf (settings : List Setting) : Header := settings.foldl Header.extend .blank

section

variable {settings : List Setting} (once : (settings.map Setting.directive).Nodup)

include once

theorem setting_of_header (directive : Directive) (setting : Setting) :
    (headerOf settings).setting? directive = some setting ↔
      setting ∈ settings ∧ setting.directive = directive := by
  have unset : ∀ other ∈ settings, Header.blank.sets other.directive = false := by
    intro other _
    cases other <;> rfl
  have nothing : Header.blank.setting? directive ≠ some setting := by
    cases directive <;> simp [Header.blank, Header.setting?]
  rw [headerOf, setting_of_settings settings .blank once unset]
  simp [nothing]

theorem max_steps_given (value : Word) :
    (headerOf settings).maxSteps = some value ↔ Setting.maxSteps value ∈ settings := by
  have held := setting_of_header once .maxSteps (.maxSteps value)
  simpa [Header.setting?, Setting.directive] using held

theorem jump_mode_given (mode : JumpMode) :
    (headerOf settings).jumpMode = some mode ↔ Setting.jumpMode mode ∈ settings := by
  have held := setting_of_header once .jumpMode (.jumpMode mode)
  simpa [Header.setting?, Setting.directive] using held

theorem input_mode_given (mode : InputMode) :
    (headerOf settings).inputMode = some mode ↔ Setting.inputMode mode ∈ settings := by
  have held := setting_of_header once .inputMode (.inputMode mode)
  simpa [Header.setting?, Setting.directive] using held

theorem program_iff (code : List Instr) (started : Bool) (program : Program) :
    (Draft.mk (headerOf settings) code.reverse started).program = .ok program ↔
      program.code = code ∧ Chosen settings .maxSteps 64 program.maxSteps ∧
        Chosen settings .jumpMode .error program.jumpMode ∧
        Chosen settings .inputMode .direct program.inputMode := by
  rw [Draft.program, create_iff, List.reverse_reverse, chosen_iff _ _ _ (max_steps_given once),
    chosen_iff _ _ _ (jump_mode_given once), chosen_iff _ _ _ (input_mode_given once)]
  simp only [eq_comm, Program.defaultMaxSteps]

end

/-- Of the settings that take part in a text, the reader asks nothing but that they are distinct. -/
theorem continues_blank (settings : List Setting) (code : List Instr) (after : Draft) :
    Continues .blank settings code after ↔
      (settings.map Setting.directive).Nodup ∧
        after = ⟨headerOf settings, code.reverse, !code.isEmpty⟩ := by
  constructor
  · rintro ⟨-, -, once, settled, lengthened, started⟩
    refine ⟨once, ?_⟩
    cases after
    simp_all [Draft.blank, headerOf]
  · rintro ⟨once, rfl⟩
    refine ⟨fun late => ?_, fun setting _ => ?_, once, rfl, ?_, ?_⟩
    · cases late
    · cases setting <;> rfl
    · simp [Draft.blank]
    · simp [Draft.blank]

theorem parse_ok_iff (text : Text) (program : Program) :
    parse text = .ok program ↔
      ∃ after : Draft, Draft.blank.absorbLines 1 (Text.lines text) = (after, []) ∧
        after.program = .ok program := by
  rw [parse]
  rcases Draft.blank.absorbLines 1 (Text.lines text) with ⟨after, _ | ⟨first, others⟩⟩
  · cases made : after.program with
    | ok other => simp [made]
    | error error => simp [made]
  · simp

theorem parse_strict_iff (text : Text) (program : Program) :
    parseStrict text = .ok program ↔ parse text = .ok program := by
  rw [parseStrict]
  cases parse text <;> simp

theorem well_formed_of_program (settings : List Setting) (program : Program)
    (once : (settings.map Setting.directive).Nodup)
    (chosen : Chosen settings .maxSteps 64 program.maxSteps) :
    WellFormed settings program.code := by
  refine ⟨once, program.halts, fun value member => ?_⟩
  have given := (max_steps_given once value).mpr member
  have same := (chosen_iff _ _ _ (max_steps_given once) _ _).mp chosen
  rw [given, Option.getD_some] at same
  rw [same]
  exact program.positive

theorem parse_describes (text : Text) (program : Program) :
    parse text = .ok program ↔ ∃ settings, Describes text settings program := by
  rw [parse_ok_iff, lines_are_rows]
  constructor
  · rintro ⟨after, absorbed, made⟩
    obtain ⟨settings, code, spells, continues⟩ := (absorb_lines_iff _ _ _ _).mp absorbed
    obtain ⟨once, rfl⟩ := (continues_blank _ _ _).mp continues
    obtain ⟨rfl, maxSteps, jumpMode, inputMode⟩ := (program_iff once _ _ _).mp made
    exact ⟨settings, spells, well_formed_of_program settings program once maxSteps, maxSteps,
      jumpMode, inputMode⟩
  · rintro ⟨settings, spells, wellFormed, maxSteps, jumpMode, inputMode⟩
    have once := wellFormed.once
    refine ⟨⟨headerOf settings, program.code.reverse, !program.code.isEmpty⟩, ?_,
      (program_iff once _ _ _).mpr ⟨rfl, maxSteps, jumpMode, inputMode⟩⟩
    exact (absorb_lines_iff _ _ _ _).mpr
      ⟨settings, program.code, spells, (continues_blank _ _ _).mpr ⟨once, rfl⟩⟩

theorem program_of_well_formed (settings : List Setting) (code : List Instr)
    (wellFormed : WellFormed settings code) :
    ∃ program : Program, program.code = code ∧ Chosen settings .maxSteps 64 program.maxSteps ∧
      Chosen settings .jumpMode .error program.jumpMode ∧
      Chosen settings .inputMode .direct program.inputMode := by
  have once := wellFormed.once
  have positive : 1 ≤ (headerOf settings).maxSteps.getD 64 := by
    cases given : (headerOf settings).maxSteps with
    | none => decide
    | some value => exact wellFormed.positive value ((max_steps_given once value).mp given)
  exact ⟨⟨code, (headerOf settings).maxSteps.getD 64, (headerOf settings).jumpMode.getD .error,
      (headerOf settings).inputMode.getD .direct, wellFormed.halts, positive⟩, rfl,
    (chosen_iff _ _ _ (max_steps_given once) _ _).mpr rfl,
    (chosen_iff _ _ _ (jump_mode_given once) _ _).mpr rfl,
    (chosen_iff _ _ _ (input_mode_given once) _ _).mpr rfl⟩

/-- The reader accepts the grammatical texts and nothing else, whatever their bytes, and what it
makes of a text is a program that the text describes. -/
theorem accepts_grammar (text : Text) :
    ((∃ program, parseStrict text = .ok program) ↔ Grammatical text) ∧
      ∀ program, parseStrict text = .ok program ↔ ∃ settings, Describes text settings program := by
  have describes (program : Program) :
      parseStrict text = .ok program ↔ ∃ settings, Describes text settings program :=
    (parse_strict_iff text program).trans (parse_describes text program)
  refine ⟨⟨?_, ?_⟩, describes⟩
  · rintro ⟨program, accepted⟩
    obtain ⟨settings, described⟩ := (describes program).mp accepted
    exact ⟨settings, program.code, described.spells, described.wellFormed⟩
  · rintro ⟨settings, code, spells, wellFormed⟩
    obtain ⟨program, rfl, maxSteps, jumpMode, inputMode⟩ :=
      program_of_well_formed settings code wellFormed
    exact ⟨program, (describes program).mpr
      ⟨settings, spells, wellFormed, maxSteps, jumpMode, inputMode⟩⟩

end StackMachine.Assembly

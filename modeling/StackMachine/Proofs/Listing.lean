import StackMachine.Assembly.Listing
import StackMachine.Assembly.Source
import StackMachine.Proofs.Decimal
import StackMachine.Proofs.Lines

/-!
# Reading back a listing

A listing has one or two plain words a line, so its lines and tokens come back exactly. The three
directives fill the header in their order, and every instruction line then adds its instruction to
the draft; no line leaves a diagnostic behind.
-/

namespace StackMachine.Assembly

set_option autoImplicit false

/-- A word that stays one token: nonempty, without white space and without a hash. -/
structure Plain (word : Text) : Prop where
  nonempty : word ≠ []
  bytes : ∀ byte ∈ word, Text.isSpace byte = false ∧ byte ≠ hash

theorem Plain.of_digits (digits : Text) (nonempty : digits ≠ [])
    (allDigits : ∀ byte ∈ digits, Text.isDigit byte = true) : Plain digits := by
  refine ⟨nonempty, fun byte member => ?_⟩
  have digit := allDigits byte member
  simp only [Text.isDigit, Bool.and_eq_true, decide_eq_true_eq, UInt8.le_iff_toNat_le] at digit
  have lower : 48 ≤ byte.toNat := digit.1
  constructor
  · have notBlank : byte ≠ 32 := by
      rintro rfl
      simp at lower
    have high : ¬byte ≤ 13 := by
      rw [UInt8.le_iff_toNat_le]
      exact fun low => absurd (Nat.le_trans lower low) (by decide)
    simp [Text.isSpace, notBlank, high]
  · rintro rfl
    exact absurd lower (by decide)

theorem plain_of_nat (number : Nat) : Plain (Decimal.ofNat number) :=
  .of_digits _ (Decimal.of_nat_ne_nil number) (Decimal.of_nat_digits number)

theorem plain_of_int (number : Int) : Plain (Decimal.ofInt number) := by
  cases number with
  | ofNat magnitude => exact plain_of_nat magnitude
  | negSucc below =>
      have digits := plain_of_nat (below + 1)
      refine ⟨by simp [Decimal.ofInt, digits.nonempty], fun byte member => ?_⟩
      rcases List.mem_append.mp member with sign | digit
      · have minus : byte = 45 := by simpa [Text.ascii] using sign
        rw [minus]
        decide
      · exact digits.bytes byte digit

theorem Plain.newline_not_mem {word : Text} (plain : Plain word) : Text.newline ∉ word :=
  fun member => absurd (plain.bytes _ member).1 (by decide)

instance (word : Text) : Decidable (Plain word) :=
  decidable_of_iff (word.isEmpty = false ∧ word.all (fun byte => !Text.isSpace byte && byte != hash))
    ⟨fun both => ⟨by simpa using both.1, by simpa using both.2⟩,
      fun plain => ⟨by simpa using plain.nonempty, by simpa using plain.bytes⟩⟩

theorem plain_mnemonic (opcode : Opcode) : Plain opcode.mnemonic := by
  cases opcode with
  | binary op => cases op <;> decide
  | unary op => cases op <;> decide
  | stack op => cases op <;> decide
  | branch condition => cases condition <;> decide
  | halt | pushConst | loadInput | jump => decide

theorem strip_comment_plain (line : Text) (noHash : ∀ byte ∈ line, byte ≠ hash) :
    stripComment line = line := by
  induction line with
  | nil => rfl
  | cons byte line ih =>
      have other : byte ≠ hash := noHash byte (by simp)
      have rest := ih fun later member => noHash later (List.mem_cons_of_mem _ member)
      simp only [stripComment] at rest ⊢
      rw [List.takeWhile_cons_of_pos (by simpa using other), rest]

theorem scan_word (column : Nat) (pending word rest : Text)
    (solid : ∀ byte ∈ word, Text.isSpace byte = false) :
    Token.scan column pending (word ++ rest) =
      Token.scan (column + word.length) (word.reverse ++ pending) rest := by
  induction word generalizing column pending with
  | nil => simp
  | cons byte word ih =>
      have first : Text.isSpace byte = false := solid byte (by simp)
      have others : ∀ other ∈ word, Text.isSpace other = false :=
        fun other member => solid other (List.mem_cons_of_mem _ member)
      simp only [List.cons_append, Token.scan, first, Bool.false_eq_true, if_false]
      rw [ih (column + 1) (byte :: pending) others]
      simp [Nat.add_comm, Nat.add_left_comm]

theorem ending_word (column : Nat) (word : Text) (nonempty : word ≠ []) :
    Token.ending (column + word.length) word.reverse = [⟨word, column⟩] := by
  have pending : word.reverse ≠ [] := by simpa using nonempty
  rw [Token.ending, if_neg pending]
  simp

theorem tokenize_word (word : Text) (plain : Plain word) : tokenize word = [⟨word, 1⟩] := by
  rw [tokenize, strip_comment_plain word fun byte member => (plain.bytes byte member).2]
  have scanned := scan_word 1 [] word [] fun byte member => (plain.bytes byte member).1
  simp only [List.append_nil] at scanned
  rw [scanned, Token.scan, ending_word 1 word plain.nonempty]

theorem tokenize_two_words (first second : Text) (plainFirst : Plain first)
    (plainSecond : Plain second) :
    tokenize (first ++ " " ++ second) = [⟨first, 1⟩, ⟨second, first.length + 2⟩] := by
  have noHash : ∀ byte ∈ first ++ " " ++ second, byte ≠ hash := by
    intro byte member
    simp only [List.mem_append] at member
    rcases member with (left | blank) | right
    · exact (plainFirst.bytes byte left).2
    · have space : byte = 32 := by simpa [Text.ascii] using blank
      rw [space]
      decide
    · exact (plainSecond.bytes byte right).2
  have solid : ∀ byte ∈ second, Text.isSpace byte = false :=
    fun byte member => (plainSecond.bytes byte member).1
  rw [tokenize, strip_comment_plain _ noHash, List.append_assoc,
    scan_word 1 [] first _ fun byte member => (plainFirst.bytes byte member).1]
  change Token.scan (1 + first.length) (first.reverse ++ []) (32 :: second) = _
  have blank : Text.isSpace 32 = true := rfl
  simp only [Token.scan, blank, if_true, List.append_nil]
  have scanned := scan_word (1 + first.length + 1) [] second [] solid
  simp only [List.append_nil] at scanned
  rw [scanned, Token.scan, ending_word 1 first plainFirst.nonempty,
    ending_word _ second plainSecond.nonempty]
  simp [Nat.add_comm, Nat.add_left_comm]

theorem of_mnemonic_mnemonic (opcode : Opcode) :
    Opcode.ofMnemonic? opcode.mnemonic = some opcode := by
  cases opcode with
  | binary op => cases op <;> decide
  | unary op => cases op <;> decide
  | stack op => cases op <;> decide
  | branch condition => cases condition <;> decide
  | halt | pushConst | loadInput | jump => decide

theorem mnemonic_is_no_directive (opcode : Opcode) (column : Nat) :
    (Token.mk opcode.mnemonic column).isDirective = false := by
  cases opcode with
  | binary op => cases op <;> rfl
  | unary op => cases op <;> rfl
  | stack op => cases op <;> rfl
  | branch condition => cases condition <;> rfl
  | halt | pushConst | loadInput | jump => rfl

theorem make_opcode_operand (instr : Instr) :
    Instr.make instr.opcode instr.operand? = .ok instr := by
  cases instr <;> rfl

theorem operand_count_of_instr (instr : Instr) :
    operandCount instr.opcode = instr.operand?.toList.length := by
  cases instr <;> rfl

def operandTokens (instr : Instr) : List Token :=
  instr.operand?.toList.map fun operand =>
    ⟨Decimal.ofInt operand.toInt, instr.opcode.mnemonic.length + 2⟩

theorem tokenize_instr (instr : Instr) :
    tokenize instr.text = ⟨instr.opcode.mnemonic, 1⟩ :: operandTokens instr := by
  have mnemonic := plain_mnemonic instr.opcode
  rw [Instr.text, operandTokens]
  cases instr.operand? with
  | none => exact tokenize_word _ mnemonic
  | some operand => exact tokenize_two_words _ _ mnemonic (plain_of_int operand.toInt)

theorem read_operand_tokens (instr : Instr) :
    readOperand (operandTokens instr) = .ok instr.operand? := by
  rw [operandTokens]
  cases instr.operand? with
  | none => rfl
  | some operand => simp [readOperand, Decimal.to_word_of_int]

theorem read_instr_listed (instr : Instr) (column : Nat) :
    readInstr ⟨instr.opcode.mnemonic, column⟩ (operandTokens instr) = .ok instr := by
  have noExtra : (operandTokens instr)[operandCount instr.opcode]? = none := by
    refine List.getElem?_eq_none (Nat.le_of_eq ?_)
    rw [operand_count_of_instr, operandTokens, List.length_map]
  simp only [readInstr, of_mnemonic_mnemonic, noExtra, read_operand_tokens, make_opcode_operand]

theorem absorb_instr (draft : Draft) (instr : Instr) :
    draft.absorb (tokenize instr.text) =
      ({ draft with code := instr :: draft.code, started := true }, none) := by
  rw [tokenize_instr, Draft.absorb]
  simp only [mnemonic_is_no_directive, Bool.false_eq_true, if_false, read_instr_listed]

/-- The instruction lines only lengthen the code of the draft, and none of them is refused. -/
theorem absorb_instr_lines (code : List Instr) (draft : Draft) (number : Nat) :
    draft.absorbLines number (code.map Instr.text) =
      (⟨draft.header, code.reverse ++ draft.code, draft.started || !code.isEmpty⟩, []) := by
  induction code generalizing draft number with
  | nil => simp [Draft.absorbLines]
  | cons instr code ih =>
      simp only [List.map_cons, Draft.absorbLines, absorb_instr]
      rw [ih]
      simp

theorem jump_mode_of_name (mode : JumpMode) : JumpMode.ofName? mode.name = some mode := by
  cases mode <;> decide

theorem input_mode_of_name (mode : InputMode) : InputMode.ofName? mode.name = some mode := by
  cases mode <;> decide

theorem plain_jump_mode (mode : JumpMode) : Plain mode.name := by
  cases mode <;> decide

theorem plain_input_mode (mode : InputMode) : Plain mode.name := by
  cases mode <;> decide

theorem plain_directive (directive : Directive) : Plain directive.name := by
  cases directive <;> decide

theorem directive_of_name (directive : Directive) :
    Directive.ofName? directive.name = some directive := by
  cases directive <;> decide

theorem directive_name_is_directive (directive : Directive) (column : Nat) :
    (Token.mk directive.name column).isDirective = true := by
  cases directive <;> rfl

theorem absorb_directive (draft : Draft) (directive : Directive) (value : Text) (header : Header)
    (plain : Plain value) (early : draft.started = false)
    (unset : draft.header.sets directive = false)
    (read : draft.header.set directive ⟨value, directive.name.length + 2⟩ = .ok header) :
    draft.absorb (tokenize (directiveLine directive value)) =
      ({ draft with header := header }, none) := by
  rw [directiveLine, tokenize_two_words _ _ (plain_directive directive) plain, Draft.absorb]
  simp only [directive_name_is_directive, if_true, Header.read, early, Bool.false_eq_true,
    if_false, directive_of_name, unset, read]

def listedHeader (program : Program) : Header :=
  ⟨some program.maxSteps, some program.jumpMode, some program.inputMode⟩

theorem absorb_listing (program : Program) :
    Draft.blank.absorbLines 1 (listingLines program) =
      (⟨listedHeader program, program.code.reverse, true⟩, []) := by
  have steps := absorb_directive Draft.blank .maxSteps (Decimal.ofInt program.maxSteps.toInt)
    ⟨some program.maxSteps, none, none⟩ (plain_of_int _) rfl rfl
    (by simp only [Header.set, Decimal.to_word_of_int]; rfl)
  have jumps := absorb_directive ⟨⟨some program.maxSteps, none, none⟩, [], false⟩ .jumpMode
    program.jumpMode.name ⟨some program.maxSteps, some program.jumpMode, none⟩
    (plain_jump_mode _) rfl rfl (by simp only [Header.set, jump_mode_of_name])
  have inputs := absorb_directive
    ⟨⟨some program.maxSteps, some program.jumpMode, none⟩, [], false⟩ .inputMode
    program.inputMode.name (listedHeader program) (plain_input_mode _) rfl rfl
    (by simp only [Header.set, input_mode_of_name, listedHeader])
  have nonempty : program.code.isEmpty = false := by
    have member := program.halts
    cases code : program.code with
    | nil => simp [code] at member
    | cons _ _ => rfl
  have blank : Draft.blank = ⟨.blank, [], false⟩ := rfl
  simp only [blank] at steps
  simp only [listingLines, Draft.absorbLines, blank, steps, jumps, inputs, absorb_instr_lines,
    nonempty]
  simp

theorem create_fields (program : Program) :
    Program.create program.code program.maxSteps program.jumpMode program.inputMode =
      .ok program := by
  have nonempty : program.code ≠ [] := by
    have member := program.halts
    rintro empty
    simp [empty] at member
  rw [Program.create, if_neg nonempty, dif_pos program.halts, dif_pos program.positive]

theorem listing_lines_clean (program : Program) :
    ∀ row ∈ listingLines program, Text.newline ∉ row := by
  have twoWords : ∀ first second : Text, Plain first → Plain second →
      Text.newline ∉ first ++ " " ++ second := by
    intro first second plainFirst plainSecond
    simp only [List.mem_append, not_or]
    exact ⟨⟨plainFirst.newline_not_mem, by decide⟩, plainSecond.newline_not_mem⟩
  intro row member
  simp only [listingLines, List.mem_cons, List.mem_map] at member
  rcases member with rfl | rfl | rfl | ⟨instr, -, rfl⟩
  · exact twoWords _ _ (plain_directive _) (plain_of_int _)
  · exact twoWords _ _ (plain_directive _) (plain_jump_mode _)
  · exact twoWords _ _ (plain_directive _) (plain_input_mode _)
  · have mnemonic := plain_mnemonic instr.opcode
    rw [Instr.text]
    cases instr.operand? with
    | none => exact mnemonic.newline_not_mem
    | some operand => exact twoWords _ _ mnemonic (plain_of_int operand.toInt)

/-- A program is what its listing says: reading the listing gives the program itself, no line of it
is diagnosed, and the strict reader agrees. -/
theorem parse_listing (program : Program) :
    parse (listing program) = .ok program ∧ parseStrict (listing program) = .ok program ∧
      (Draft.blank.absorbLines 1 (Text.lines (listing program))).2 = [] := by
  have rows : Text.lines (listing program) = listingLines program :=
    Text.lines_terminated _ (listing_lines_clean program)
  have absorbed := absorb_listing program
  have whole : (Draft.mk (listedHeader program) program.code.reverse true).program =
      .ok program := by
    simp only [Draft.program, listedHeader, List.reverse_reverse, Option.getD_some]
    exact create_fields program
  have parsed : parse (listing program) = .ok program := by
    simp only [parse, rows, absorbed, whole]
  refine ⟨parsed, ?_, ?_⟩
  · simp only [parseStrict, parsed]
  · rw [rows, absorbed]

end StackMachine.Assembly

import StackMachine.Proofs.Java.Syntax
import StackMachine.Proofs.Policy
import StackMachine.Proofs.Source.Rows
import StackMachine.Proofs.Source.Run

/-!
# Rendered Java reads back

Every line that the renderer writes spells the tree it was written from, as long as the positions
fit a literal. So the whole text reads as a method that runs a loop over one arm for each
instruction; the brace that ends an arm stands on the line that begins the next one.
-/

namespace StackMachine.Java

open StackMachine.Render StackMachine.Render.Java StackMachine.Source

set_option autoImplicit false

theorem row_indented (width : Nat) (text : Text) :
    row? (List.replicate width 32 ++ text) = row? text := by
  rw [row?, row?, ← lexicon.tokens_indented width text]
  rfl

theorem row_no_newline (text : Text) (lines : List Line) (found : row? text = some lines) :
    Text.newline ∉ text := by
  obtain ⟨tokens, cut, -⟩ := Option.bind_eq_some_iff.mp found
  exact lexicon.tokens_no_newline text tokens cut

theorem row_of_tokens {text : Text} {tokens : Tokens} {lines : List Line}
    (cut : lexicon.tokens text = some tokens) (fits : tokens.all literalFits = true)
    (reads : line? tokens = some lines) : row? text = some lines := by
  rw [row?, cut, Option.bind_some, if_pos fits, reads]

/-- The statement is read from its own text. -/
def IsSpelled (stmt : Simple) : Prop := row? stmt.text = some [.simple (.plain stmt)]

/-- The test is read from the line of a conditional. -/
def IsTested (test : Expr) : Prop := row? (ifLine test) = some [.branch test]

instance (stmt : Simple) : Decidable (IsSpelled stmt) :=
  inferInstanceAs (Decidable (row? stmt.text = _))

instance (test : Expr) : Decidable (IsTested test) :=
  inferInstanceAs (Decidable (row? (ifLine test) = _))

def pcGap : Gap lexicon where
  before := "pc = "
  after := ";"
  left := [.word (.var .pc), .symbol .assign]
  right := [.symbol .semicolon]
  leftTokens := by decide +kernel
  rightTokens := by decide +kernel
  between := between_assignment
  ends := ends_statement

def pushGap : SignedGap lexicon where
  before := "stack[sp++] = "
  after := ";"
  left := [.word (.var .stack), .symbol .openBracket, .word (.var .sp), .symbol .increment,
    .symbol .closeBracket, .symbol .assign]
  right := [.symbol .semicolon]
  leftTokens := by decide +kernel
  signTokens := by decide +kernel
  rightTokens := by decide +kernel
  between := rfl
  signBetween := rfl
  ends := rfl

def cyclicGap : SignedGap lexicon where
  before := "stack[sp++] = xs[(int) Math.floorMod("
  after := ", (long) xs.length)];"
  left := [.word (.var .stack), .symbol .openBracket, .word (.var .sp), .symbol .increment,
    .symbol .closeBracket, .symbol .assign, .word (.var .xs), .symbol .openBracket,
    .symbol .openParen, .word .intWord, .symbol .closeParen, .word .math, .symbol .dot,
    .word .floorMod, .symbol .openParen]
  right := [.symbol .comma, .symbol .openParen, .word .longWord, .symbol .closeParen,
    .word (.var .xs), .symbol .dot, .word .length, .symbol .closeParen, .symbol .closeBracket,
    .symbol .semicolon]
  leftTokens := by decide +kernel
  signTokens := by decide +kernel
  rightTokens := by decide +kernel
  between := rfl
  signBetween := rfl
  ends := rfl

def directGap : SignedGap lexicon where
  before := "stack[sp++] = xs[(int) "
  after := "];"
  left := [.word (.var .stack), .symbol .openBracket, .word (.var .sp), .symbol .increment,
    .symbol .closeBracket, .symbol .assign, .word (.var .xs), .symbol .openBracket,
    .symbol .openParen, .word .intWord, .symbol .closeParen]
  right := [.symbol .closeBracket, .symbol .semicolon]
  leftTokens := by decide +kernel
  signTokens := by decide +kernel
  rightTokens := by decide +kernel
  between := rfl
  signBetween := rfl
  ends := rfl

def boundGap : SignedGap lexicon where
  before := "if ("
  after := " >= xs.length) \x7b"
  left := [.word .ifWord, .symbol .openParen]
  right := [.symbol .ge, .word (.var .xs), .symbol .dot, .word .length, .symbol .closeParen,
    .symbol .openBrace]
  leftTokens := by decide +kernel
  signTokens := by decide +kernel
  rightTokens := by decide +kernel
  between := rfl
  signBetween := rfl
  ends := rfl

def loopGap : SignedGap lexicon where
  before := "while (steps < "
  after := ") \x7b"
  left := [.word .whileWord, .symbol .openParen, .word (.var .steps), .symbol .lt]
  right := [.symbol .closeParen, .symbol .openBrace]
  leftTokens := by decide +kernel
  signTokens := by decide +kernel
  rightTokens := by decide +kernel
  between := rfl
  signBetween := rfl
  ends := rfl

def firstArmGap : Gap lexicon where
  before := "if (pc == "
  after := ") \x7b"
  left := [.word .ifWord, .symbol .openParen, .word (.var .pc), .symbol .eq]
  right := [.symbol .closeParen, .symbol .openBrace]
  leftTokens := by decide +kernel
  rightTokens := by decide +kernel
  between := rfl
  ends := rfl

def laterArmGap : Gap lexicon where
  before := "\x7d else if (pc == "
  after := ") \x7b"
  left := [.symbol .closeBrace, .word .elseWord, .word .ifWord, .symbol .openParen,
    .word (.var .pc), .symbol .eq]
  right := [.symbol .closeParen, .symbol .openBrace]
  leftTokens := by decide +kernel
  rightTokens := by decide +kernel
  between := rfl
  ends := rfl

def headGap : Gap lexicon where
  before := "public static long[] "
  after := "(long[] xs) \x7b"
  left := [.word .publicWord, .word .staticWord, .word .longWord, .symbol .openBracket,
    .symbol .closeBracket]
  right := [.symbol .openParen, .word .longWord, .symbol .openBracket, .symbol .closeBracket,
    .word (.var .xs), .symbol .closeParen, .symbol .openBrace]
  leftTokens := by decide +kernel
  rightTokens := by decide +kernel
  between := rfl
  ends := rfl

/-- A line of the row with the name of the least value in its gap. -/
def ReadsLeast (gap : SignedGap lexicon) (line : Expr → Line) : Prop :=
  row? (gap.before ++ ("Long.MIN_VALUE" ++ gap.after)) = some [line (.long Int64.minValue)]

instance (gap : SignedGap lexicon) (line : Expr → Line) : Decidable (ReadsLeast gap line) :=
  inferInstanceAs (Decidable (row? _ = _))

/-- The lines that hold no part of the program are read as they were written. -/
structure FixedLines : Prop where
  failed : ∀ status, IsSpelled (fail status)
  answered : IsSpelled (.answer .ok top)
  leastPushed : ReadsLeast pushGap fun literal =>
    .simple (.plain (.store .stack (.raised .sp) literal))
  leastCyclic : ReadsLeast cyclicGap fun literal => .simple (.plain (.store .stack (.raised .sp)
    (.element .xs (.toInt (.floorMod literal (.toLong (.length .xs)))))))
  leastDirect : ReadsLeast directGap fun literal => .simple (.plain (.store .stack (.raised .sp)
    (.element .xs (.toInt literal))))
  leastBound : ReadsLeast boundGap fun literal => .branch (.compare .ge literal (.length .xs))
  leastBudget : ReadsLeast loopGap fun literal => .loop (.compare .lt (.var .steps) literal)
  stackFull : IsTested (.compare .eq (.var .sp) (.length .stack))
  stackGrown : IsSpelled (.assign .stack (.copyOf .stack (.arith .mul (.var .sp) (.int 2))))
  stackEmpty : IsTested (.compare .eq (.var .sp) (.int 0))
  stackShort : ∀ depth : Nat, depth = 1 ∨ depth = 2 →
    IsTested (.compare .lt (.var .sp) (.int depth))
  inputsEmpty : IsTested (.compare .eq (.length .xs) (.int 0))
  zeroDivisor : IsTested (.compare .eq (.var .b) (.long 0))
  popped : ∀ name : Var, name = .a ∨ name = .b ∨ name = .c → IsSpelled (.declare name pop)
  binaryPushed : ∀ op, IsSpelled (.store .stack (.raised .sp) (binaryValue op))
  unaryPushed : ∀ op, IsSpelled (.store .stack (.raised .sp) (unaryValue op))
  topTaken : ∀ name : Var, name = .a ∨ name = .t → IsSpelled (.declare name top)
  topDoubled : IsSpelled (.store .stack (.raised .sp) (.var .a))
  secondRaised : IsSpelled (.store .stack (beneath 1) (.element .stack (beneath 2)))
  firstLowered : IsSpelled (.store .stack (beneath 2) (.var .t))
  topDropped : IsSpelled (.decrement .sp)
  conditions : ∀ condition, IsTested (conditionTest condition)
  counted : IsSpelled (.increment .steps)
  closing : row? "\x7d" = some [.close]
  otherwise : row? (elseText ++ "\x7b") = some [.close, .otherwise]
  stackLine : row? (Declaration.array .stack 16).text = some [.simple (.initial (.array .stack 16))]
  spLine : row? (Declaration.int .sp 0).text = some [.simple (.initial (.int .sp 0))]
  pcLine : row? (Declaration.int .pc 0).text = some [.simple (.initial (.int .pc 0))]
  stepsLine : row? (Declaration.long .steps 0).text =
    some [.simple (.plain (.declare .steps (.long 0)))]

theorem fixed_lines : FixedLines where
  failed status := by cases status <;> decide +kernel
  answered := by decide +kernel
  leastPushed := by decide +kernel
  leastCyclic := by decide +kernel
  leastDirect := by decide +kernel
  leastBound := by decide +kernel
  leastBudget := by decide +kernel
  stackFull := by decide +kernel
  stackGrown := by decide +kernel
  stackEmpty := by decide +kernel
  stackShort := by rintro _ (rfl | rfl) <;> decide +kernel
  inputsEmpty := by decide +kernel
  zeroDivisor := by decide +kernel
  popped := by rintro _ (rfl | rfl | rfl) <;> decide +kernel
  binaryPushed op := by cases op <;> decide +kernel
  unaryPushed op := by cases op <;> decide +kernel
  topTaken := by rintro _ (rfl | rfl) <;> decide +kernel
  topDoubled := by decide +kernel
  secondRaised := by decide +kernel
  firstLowered := by decide +kernel
  topDropped := by decide +kernel
  conditions condition := by cases condition <;> decide +kernel
  counted := by decide +kernel
  closing := by decide +kernel
  otherwise := by decide +kernel
  stackLine := by decide +kernel
  spLine := by decide +kernel
  pcLine := by decide +kernel
  stepsLine := by decide +kernel

theorem set_pc_spelled (position : Nat) (small : position < 2 ^ 31) :
    IsSpelled (setPc position) := by
  have cut := pcGap.tokens_literal (Simple.text (setPc position)) position [] rfl rfl
  exact row_of_tokens cut (by simp [pcGap, literalFits]; omega) rfl

theorem wide_literal_fits (number : Nat) (bound : number < 2 ^ 63) :
    literalFits (.number number wideMark) = true := by
  have marked : wideMark ≠ [] := by decide
  rw [literalFits, if_neg marked, beq_self_eq_true, Bool.true_and, decide_eq_true_eq]
  exact bound

theorem symbol_fits (symbol : Symbol) : literalFits (.symbol symbol) = true := rfl

/-- A line with a gap for a literal is read with any literal in it, when it is read with digits
there, signed or not, and with the name of the least value. -/
theorem literal_row (gap : SignedGap lexicon) (line : Expr → Line) (value : StackMachine.Word)
    (fits : gap.left.all literalFits = true ∧ gap.right.all literalFits = true)
    (least : ReadsLeast gap line)
    (unsigned : ∀ number : Nat, line? (gap.left ++ [.number number wideMark] ++ gap.right) =
      some [line (.long (Int64.ofInt number))])
    (signed : ∀ number : Nat,
      line? (gap.left ++ [.symbol .minus, .number number wideMark] ++ gap.right) =
        some [line (.long (Int64.ofInt (-number)))]) :
    row? (gap.before ++ (literal value ++ gap.after)) = some [line (.long value)] := by
  by_cases isLeast : value = Int64.minValue
  · subst isLeast
    exact least
  · have cut := gap.tokens_int _ value.toInt wideMark rfl rfl
    have lower : Int64.minValue.toInt ≤ value.toInt := value.minValue_le_toInt
    have upper : value.toInt ≤ Int64.maxValue.toInt := value.toInt_le
    have notLeast : value.toInt ≠ Int64.minValue.toInt := fun same => isLeast (Int64.toInt.inj same)
    have least : Int64.minValue.toInt = -2 ^ 63 := rfl
    have greatest : Int64.maxValue.toInt = 2 ^ 63 - 1 := rfl
    have same : Int64.ofInt value.toInt = value := Int64.ofInt_toInt value
    rw [literal, if_neg isLeast, List.append_assoc]
    cases valueIs : value.toInt with
    | ofNat number =>
        rw [valueIs] at cut same upper
        have bound : number < 2 ^ 63 := by
          rw [greatest] at upper
          exact Int.ofNat_lt.mp (Int.lt_of_le_sub_one upper)
        refine row_of_tokens cut ?_ ?_
        · simp [intTokens, fits, wide_literal_fits _ bound]
        · rw [← same]
          exact unsigned number
    | negSucc below =>
        rw [valueIs] at cut same lower notLeast
        have bound : below + 1 < 2 ^ 63 := by
          rw [least] at lower notLeast
          omega
        refine row_of_tokens cut ?_ ?_
        · simp [intTokens, fits, wide_literal_fits _ bound, symbol_fits]
        · rw [← same]
          exact signed (below + 1)

theorem push_long_spelled (value : StackMachine.Word) :
    IsSpelled (.store .stack (.raised .sp) (.long value)) :=
  literal_row pushGap (fun literal => .simple (.plain (.store .stack (.raised .sp) literal))) value
    ⟨rfl, rfl⟩ fixed_lines.leastPushed (fun _ => rfl) (fun _ => rfl)

theorem push_cyclic_spelled (index : StackMachine.Word) :
    IsSpelled (.store .stack (.raised .sp)
      (.element .xs (.toInt (.floorMod (.long index) (.toLong (.length .xs)))))) := by
  have read := literal_row cyclicGap
    (fun literal => .simple (.plain (.store .stack (.raised .sp)
      (.element .xs (.toInt (.floorMod literal (.toLong (.length .xs))))))))
    index ⟨rfl, rfl⟩ fixed_lines.leastCyclic (fun _ => rfl) (fun _ => rfl)
  rw [IsSpelled, ← read]
  congr 1
  simp only [Simple.text, Expr.text, List.append_assoc]
  rfl

theorem push_direct_spelled (index : StackMachine.Word) :
    IsSpelled (.store .stack (.raised .sp) (.element .xs (.toInt (.long index)))) := by
  have read := literal_row directGap
    (fun literal => .simple (.plain (.store .stack (.raised .sp) (.element .xs (.toInt literal)))))
    index ⟨rfl, rfl⟩ fixed_lines.leastDirect (fun _ => rfl) (fun _ => rfl)
  rw [IsSpelled, ← read]
  congr 1
  simp only [Simple.text, Expr.text, List.append_assoc]
  rfl

theorem index_tested (index : StackMachine.Word) :
    IsTested (.compare .ge (.long index) (.length .xs)) := by
  have read := literal_row boundGap (fun literal => .branch (.compare .ge literal (.length .xs)))
    index ⟨rfl, rfl⟩ fixed_lines.leastBound (fun _ => rfl) (fun _ => rfl)
  rw [IsTested, ← read]
  congr 1
  simp only [ifLine, Expr.text, Relation.text, List.append_assoc]
  rfl

theorem loop_row (program : Program) :
    row? ("while (" ++ (loopTest program).text ++ ") \x7b") = some [.loop (loopTest program)] := by
  have read := literal_row loopGap (fun literal => .loop (.compare .lt (.var .steps) literal))
    program.maxSteps ⟨rfl, rfl⟩ fixed_lines.leastBudget (fun _ => rfl) (fun _ => rfl)
  rw [loopTest, ← read]
  rfl

def armTest (position : Nat) : Expr := .compare .eq (.var .pc) (.int position)

/-- The first arm begins a conditional, each later one ends the block of the arm before it. -/
def armText (position : Nat) (first : Bool) : Text :=
  if first then ifLine (armTest position) else elseText ++ ifLine (armTest position)

def armHeader (position : Nat) (first : Bool) : List Line :=
  if first then [.branch (armTest position)] else [.close, .orBranch (armTest position)]

theorem arm_row (position : Nat) (first : Bool) (small : position < 2 ^ 31) :
    row? (armText position first) = some (armHeader position first) := by
  cases first with
  | true =>
      have cut := firstArmGap.tokens_literal (armText position true) position [] rfl rfl
      exact row_of_tokens cut (by simp [firstArmGap, literalFits]; omega) rfl
  | false =>
      have cut := laterArmGap.tokens_literal (armText position false) position [] rfl rfl
      exact row_of_tokens cut (by simp [laterArmGap, literalFits]; omega) rfl

def headText (name : Text) : Text := "public static long[] " ++ name ++ "(long[] xs) \x7b"

theorem valid_is_no_keyword (name : Text) (valid : Language.isFunctionName .java name = true) :
    keywords.contains name = false := by
  simp only [Language.isFunctionName, Bool.and_eq_true, Bool.not_eq_true', List.contains_eq_mem,
    decide_eq_false_iff_not] at valid ⊢
  have refused : ∀ word ∈ keywords, word ∈ Language.reserved .java ++ bodyNames := by
    decide +kernel
  intro member
  rcases List.mem_append.mp (refused name member) with reserved | body
  · exact valid.2 reserved
  · exact valid.1.2 body

theorem head_row (name : Text) (valid : Language.isFunctionName .java name = true) :
    row? (headText name) = some [.define ⟨name, .xs⟩] := by
  have noKeyword := valid_is_no_keyword name valid
  simp only [Language.isFunctionName, Bool.and_eq_true] at valid
  have cut := headGap.tokens_name name valid.1.1
  rw [← List.append_assoc] at cut
  refine row_of_tokens cut (by simp [headGap, literalFits]) ?_
  have named : (lexicon.word name).text = name := Word.text_of_text name
  simp only [headGap, line?, List.cons_append, List.nil_append, named, noKeyword,
    Bool.false_eq_true, if_false]

def SpelledBy (read : Text → Option (List Line)) (stmt : Simple) : Prop :=
  read stmt.text = some [.simple (.plain stmt)]

def TestedBy (read : Text → Option (List Line)) (test : Expr) : Prop :=
  read (ifLine test) = some [.branch test]

/-- A reader of rows that reads what `row?` reads, and any position in a program of this length. -/
structure Reads (read : Text → Option (List Line)) (length : Nat) : Prop where
  further : ∀ {text lines}, row? text = some lines → read text = some lines
  indented : ∀ width text, read (List.replicate width 32 ++ text) = read text
  clean : ∀ text lines, read text = some lines → Text.newline ∉ text
  position : ∀ position : Nat, position ≤ length → SpelledBy read (setPc position)
  arm : ∀ position first, position < length →
    read (armText position first) = some (armHeader position first)

theorem reads_rows (length : Nat) (small : length < 2 ^ 31) : Reads row? length where
  further found := found
  indented := row_indented
  clean := row_no_newline
  position position within := set_pc_spelled position (by omega)
  arm position first inside := arm_row position first (by omega)

/-- The code that a text spells to a reader of rows. -/
def readBy (read : Text → Option (List Line)) (text : Text) : Option (Code Statement Expr Head) :=
  (((Text.lines text).mapM read).map List.flatten).bind assemble

/-- Every line of the statement is read as it was written. -/
def IsLegible (read : Text → Option (List Line)) : Stmt → Prop
  | .simple stmt => SpelledBy read stmt
  | .ifThen test body => TestedBy read test ∧ ∀ stmt ∈ body, SpelledBy read stmt
  | .ifElse test body other =>
      TestedBy read test ∧ (∀ stmt ∈ body, SpelledBy read stmt) ∧ other ≠ [] ∧
        ∀ stmt ∈ other, SpelledBy read stmt

def rowCode : List Simple → Code Statement Expr Head
  | [] => .done
  | stmt :: rest => .simple (.plain stmt) (rowCode rest)

def code : List Stmt → Code Statement Expr Head
  | [] => .done
  | .simple stmt :: rest => .simple (.plain stmt) (code rest)
  | .ifThen test body :: rest => .branch test (rowCode body) .done (code rest)
  | .ifElse test body other :: rest => .branch test (rowCode body) (rowCode other) (code rest)

abbrev Denotes (read : Text → Option (List Line)) (edits : List Edit) (lines : List Line) : Prop :=
  Yields read edits lines

theorem row_code_as_other {stmts : List Simple} (nonempty : stmts ≠ []) :
    (rowCode stmts).eventsAs true = .otherwise :: (rowCode stmts).events ++ [.close] := by
  cases stmts with
  | nil => exact absurd rfl nonempty
  | cons stmt stmts => rfl

section

variable {read : Text → Option (List Line)} {length : Nat} (reads : Reads read length)

include reads

theorem spelled_further {stmt : Simple} (spelled : IsSpelled stmt) : SpelledBy read stmt :=
  reads.further spelled

theorem denotes_line {text : Text} {lines : List Line} (found : read text = some lines) :
    Denotes read [.line text] lines := yields_line reads.indented found

theorem denotes_row (stmts : List Simple) (spelled : ∀ stmt ∈ stmts, SpelledBy read stmt) :
    Denotes read (Simple.edits stmts) (rowCode stmts).events := by
  induction stmts with
  | nil => exact yields_nil
  | cons stmt stmts ih =>
      have first := denotes_line reads (spelled stmt (by simp))
      have rest := ih fun other member => spelled other (List.mem_cons_of_mem _ member)
      exact yields_append first rest

theorem denotes_block {text : Text} {header lines : List Line} {body : List Edit}
    (found : read text = some header) (denotes : Denotes read body lines) :
    Denotes read (.line text :: Edit.nested body) (header ++ lines) :=
  yields_append (denotes_line reads found) (yields_nested denotes)

theorem denotes_code (stmts : List Stmt) (legible : ∀ stmt ∈ stmts, IsLegible read stmt) :
    Denotes read (stmts.flatMap Stmt.edits) (code stmts).events := by
  induction stmts with
  | nil => exact yields_nil
  | cons stmt stmts ih =>
      have rest := ih fun other member => legible other (List.mem_cons_of_mem _ member)
      have first := legible stmt (by simp)
      have brace := denotes_line reads (reads.further fixed_lines.closing)
      have closed := yields_append brace rest
      rw [List.flatMap_cons]
      cases stmt with
      | simple stmt => exact yields_append (denotes_line reads first) rest
      | ifThen test body =>
          obtain ⟨tested, spelled⟩ := first
          have taken := denotes_block reads tested (denotes_row reads body spelled)
          simpa [code, events_branch, Code.eventsAs, Stmt.edits, closeLine]
            using yields_append taken closed
      | ifElse test body other =>
          obtain ⟨tested, spelled, otherNonempty, otherSpelled⟩ := first
          have taken := denotes_block reads tested (denotes_row reads body spelled)
          have untaken := denotes_block reads (reads.further fixed_lines.otherwise)
            (denotes_row reads other otherSpelled)
          have whole := yields_append taken (yields_append untaken closed)
          simpa [code, events_branch, row_code_as_other otherNonempty, Stmt.edits, closeLine]
            using whole

theorem if_fail_legible (test : Expr) (status : Status) (tested : TestedBy read test) :
    IsLegible read (.ifThen test [fail status]) :=
  ⟨tested, by simpa using spelled_further reads (fixed_lines.failed status)⟩

theorem require_depth_legible (depth : Nat) (depthIs : depth = 1 ∨ depth = 2) :
    IsLegible read (requireDepth depth) :=
  if_fail_legible reads _ _ (reads.further (fixed_lines.stackShort depth depthIs))

theorem push_legible (value : Expr) (spelled : SpelledBy read (.store .stack (.raised .sp) value)) :
    ∀ stmt ∈ push value, IsLegible read stmt := by
  have growth : IsLegible read (.ifThen (.compare .eq (.var .sp) (.length .stack))
      [.assign .stack (.copyOf .stack (.arith .mul (.var .sp) (.int 2)))]) :=
    ⟨reads.further fixed_lines.stackFull,
      by simpa using spelled_further reads fixed_lines.stackGrown⟩
  simpa [push] using ⟨growth, (spelled : IsLegible read (.simple _))⟩

theorem halt_legible : ∀ stmt ∈ halt, IsLegible read stmt := by
  have failed := if_fail_legible reads _ .emptyStackOnHalt
    (reads.further fixed_lines.stackEmpty)
  have answered : IsLegible read (.simple (.answer .ok top)) :=
    reads.further fixed_lines.answered
  simpa [halt] using ⟨failed, answered⟩

section

variable {next : Nat}

theorem load_input_legible (goesOn : IsLegible read (.simple (setPc next)))
    (index : StackMachine.Word) (mode : InputMode) :
    ∀ stmt ∈ loadInput index mode next, IsLegible read stmt := by
  cases mode with
  | cyclic =>
      have failed := if_fail_legible reads _ .invalidInputIndex
        (reads.further fixed_lines.inputsEmpty)
      have pushed := push_legible reads _ (reads.further (push_cyclic_spelled index))
      simp only [loadInput, List.forall_mem_append]
      exact ⟨⟨by simpa using failed, pushed⟩, by simpa using goesOn⟩
  | direct =>
      by_cases negative : index < 0
      · have failed : IsLegible read (.simple (fail .invalidInputIndex)) :=
          reads.further (fixed_lines.failed _)
        simpa [loadInput, negative] using failed
      · have tested :=
          if_fail_legible reads _ .invalidInputIndex (reads.further (index_tested index))
        have pushed := push_legible reads _ (reads.further (push_direct_spelled index))
        simp only [loadInput, if_neg negative, List.forall_mem_append]
        exact ⟨⟨by simpa using tested, pushed⟩, by simpa using goesOn⟩

theorem binary_legible (goesOn : IsLegible read (.simple (setPc next))) (op : BinaryOp) :
    ∀ stmt ∈ binary op next, IsLegible read stmt := by
  have depth := require_depth_legible reads 2 (Or.inr rfl)
  have right : IsLegible read (.simple (.declare .b pop)) :=
    reads.further (fixed_lines.popped .b (Or.inr (Or.inl rfl)))
  have left : IsLegible read (.simple (.declare .a pop)) :=
    reads.further (fixed_lines.popped .a (Or.inl rfl))
  have checked : ∀ stmt ∈ divisorCheck op, IsLegible read stmt := by
    cases op with
    | div | mod =>
        simpa [divisorCheck] using if_fail_legible reads _ _ (reads.further fixed_lines.zeroDivisor)
    | add | sub | mul | eq | gt | lt => simp [divisorCheck]
  have pushed : ∀ stmt ∈ push (binaryValue op), IsLegible read stmt :=
    push_legible reads _ (reads.further (fixed_lines.binaryPushed op))
  simp only [binary, List.forall_mem_append]
  exact ⟨⟨⟨by simpa using ⟨depth, right, left⟩, checked⟩, pushed⟩, by simpa using goesOn⟩

theorem unary_legible (goesOn : IsLegible read (.simple (setPc next))) (op : UnaryOp) :
    ∀ stmt ∈ unary op next, IsLegible read stmt := by
  have depth := require_depth_legible reads 1 (Or.inl rfl)
  have popped : IsLegible read (.simple (.declare .a pop)) :=
    reads.further (fixed_lines.popped .a (Or.inl rfl))
  have pushed : ∀ stmt ∈ push (unaryValue op), IsLegible read stmt :=
    push_legible reads _ (reads.further (fixed_lines.unaryPushed op))
  simp only [unary, List.forall_mem_append]
  exact ⟨⟨by simpa using ⟨depth, popped⟩, pushed⟩, by simpa using goesOn⟩

theorem stack_effect_legible (op : StackOp) : ∀ stmt ∈ stackEffect op, IsLegible read stmt := by
  cases op with
  | dup =>
      have taken : IsLegible read (.simple (.declare .a top)) :=
        reads.further (fixed_lines.topTaken .a (Or.inl rfl))
      have pushed := push_legible reads (.var .a) (reads.further fixed_lines.topDoubled)
      simp only [stackEffect, List.forall_mem_cons]
      exact ⟨taken, pushed⟩
  | swap =>
      have taken : IsLegible read (.simple (.declare .t top)) :=
        reads.further (fixed_lines.topTaken .t (Or.inr rfl))
      simp only [stackEffect, List.forall_mem_cons]
      exact ⟨taken, reads.further fixed_lines.secondRaised, reads.further fixed_lines.firstLowered,
        by simp⟩
  | pop =>
      simp only [stackEffect, List.forall_mem_cons]
      exact ⟨reads.further fixed_lines.topDropped, by simp⟩

theorem stack_legible (goesOn : IsLegible read (.simple (setPc next))) (op : StackOp) :
    ∀ stmt ∈ stack op next, IsLegible read stmt := by
  have depth : IsLegible read (requireDepth (Opcode.stack op).requiredDepth) :=
    require_depth_legible reads _ (Opcode.stack_depth op)
  simp only [stack, List.forall_mem_append, List.forall_mem_cons]
  exact ⟨⟨depth, stack_effect_legible reads op⟩, by simpa using goesOn⟩

theorem branch_legible (goesOn : IsLegible read (.simple (setPc next))) (condition : Condition)
    (target : Option Int) (jumps : SpelledBy read (jump target)) :
    ∀ stmt ∈ branch condition target next, IsLegible read stmt := by
  have depth := require_depth_legible reads 1 (Or.inl rfl)
  have popped : IsLegible read (.simple (.declare .c pop)) :=
    reads.further (fixed_lines.popped .c (Or.inr (Or.inr rfl)))
  have tested := reads.further (fixed_lines.conditions condition)
  have untaken : ∀ stmt ∈ [setPc next], SpelledBy read stmt := by
    intro stmt member
    rw [List.mem_singleton.mp member]
    exact goesOn
  cases target with
  | none =>
      have taken : IsLegible read (.ifThen (conditionTest condition) [jump none]) :=
        ⟨tested, by simpa using jumps⟩
      simpa [branch, Opcode.requiredDepth] using ⟨depth, popped, taken, goesOn⟩
  | some position =>
      have both : IsLegible read (.ifElse (conditionTest condition) [jump (some position)]
          [setPc next]) :=
        ⟨tested, by simpa using jumps, by simp, untaken⟩
      simpa [branch, Opcode.requiredDepth] using ⟨depth, popped, both⟩

end

end

section

variable {read : Text → Option (List Line)} (program : Program) (reads : Reads read program.length)

include reads

theorem jump_spelled (target : StackMachine.Word) :
    SpelledBy read (jump ((program.jumpMode.resolve? program.length target).map
      fun position => (position : Int))) := by
  cases resolved : program.jumpMode.resolve? program.length target with
  | none => exact reads.further (fixed_lines.failed _)
  | some position =>
      have inside := JumpMode.resolve_lt _ _ _ _ resolved
      exact reads.position position (Nat.le_of_lt inside)

theorem body_legible (pc : Nat) (inside : pc < program.length) (instr : Instr) :
    ∀ stmt ∈ (body (.ofInstr program pc instr)).1, IsLegible read stmt := by
  have goesOn : IsLegible read (.simple (setPc (pc + 1))) := reads.position (pc + 1) inside
  cases instr with
  | halt => exact halt_legible reads
  | pushConst value =>
      have pushed := push_legible reads _ (reads.further (push_long_spelled value))
      simp only [Action.ofInstr, body, List.forall_mem_append]
      exact ⟨pushed, by simpa using goesOn⟩
  | loadInput index => exact load_input_legible reads goesOn index program.inputMode
  | binary op => exact binary_legible reads goesOn op
  | unary op => exact unary_legible reads goesOn op
  | stack op => exact stack_legible reads goesOn op
  | jump target =>
      have jumps : IsLegible read (.simple _) := jump_spelled program reads target
      simpa [Action.ofInstr, body] using jumps
  | branch condition target =>
      exact branch_legible reads goesOn condition _ (jump_spelled program reads target)

end

def armCode (program : Program) (pc : Nat) (instr : Instr) : Code Statement Expr Head :=
  .simple (.plain (.increment .steps)) (code (body (.ofInstr program pc instr)).1)

def armsFrom (program : Program) (pc : Nat) (instrs : List Instr) : Code Statement Expr Head :=
  armChain armTest (armCode program) (code halt) pc instrs

def loopCode (program : Program) : Code Statement Expr Head :=
  .loop (loopTest program) (armsFrom program 0 program.code)
    (.simple (.plain (fail .stepLimit)) .done)

def methodCode (program : Program) : Code Statement Expr Head :=
  .simple (.initial (.array .stack 16)) (.simple (.initial (.int .sp 0))
    (.simple (.initial (.int .pc 0)) (.simple (.plain (.declare .steps (.long 0)))
      (loopCode program))))

def programCode (name : Text) (program : Program) : Code Statement Expr Head :=
  .define ⟨name, .xs⟩ (methodCode program) .done

def otherEdits : List Edit :=
  .line (elseText ++ "\x7b") :: Edit.nested (halt.flatMap Stmt.edits) ++ [closeLine]

/-- The lines of the arms from a position on. All but the first arm begin by ending the one
before. -/
def armLines (program : Program) (pc : Nat) (instrs : List Instr) : List Line :=
  if pc = 0 then (armsFrom program 0 instrs).events
  else .close :: (armsFrom program pc instrs).eventsAs true

def loopEdits (program : Program) : List Edit :=
  .line ("while (" ++ (loopTest program).text ++ ") \x7b") ::
    Edit.nested (target.armEdits program 0 program.code ++ otherEdits) ++
    [closeLine, .line (fail .stepLimit).text]

theorem arm_edits (pc : Nat) (action : Action) (first : Bool) :
    target.arm pc first ++ (target.action action).1 ++ target.endArm =
      .line (armText pc first) :: Edit.nested (.line (Simple.increment .steps).text ::
        (body action).1.flatMap Stmt.edits) := by
  simp [target, arm, armText, armTest, Edit.nested]

theorem source_edits (name : Text) (program : Program) :
    Language.java.target.source name program =
      .line (headText name) :: Edit.nested
        (locals.map (fun declaration => .line declaration.text) ++ loopEdits program) ++
        [.line "\x7d"] := by
  simp [Target.source, Language.target, target, opening, otherArm, closing, headText, loopEdits,
    otherEdits, closeLine, Edit.nested, body]

section

variable {read : Text → Option (List Line)} (program : Program) (reads : Reads read program.length)

include reads

theorem denotes_arm (pc : Nat) (inside : pc < program.length) (instr : Instr) (first : Bool) :
    Denotes read
      (target.arm pc first ++ (target.action (.ofInstr program pc instr)).1 ++ target.endArm)
      (armHeader pc first ++ (armCode program pc instr).events) := by
  have counted := denotes_line reads (reads.further fixed_lines.counted)
  have acted := denotes_code reads _ (body_legible program reads pc inside instr)
  have inner : Denotes read (.line (Simple.increment .steps).text ::
      (body (.ofInstr program pc instr)).1.flatMap Stmt.edits) (armCode program pc instr).events :=
    yields_append counted acted
  rw [arm_edits]
  exact denotes_block reads (reads.arm pc first inside) inner

theorem denotes_arms (pc : Nat) (instrs : List Instr)
    (inside : pc + instrs.length = program.length) (begun : pc = 0 → instrs ≠ []) :
    Denotes read (target.armEdits program pc instrs ++ otherEdits)
      (armLines program pc instrs) := by
  induction instrs generalizing pc with
  | nil =>
      have later : pc ≠ 0 := by simpa using begun
      have inner := denotes_block reads (reads.further fixed_lines.otherwise)
        (denotes_code reads halt (halt_legible reads))
      have whole := yields_append inner (denotes_line reads (reads.further fixed_lines.closing))
      have asOther : (code halt).eventsAs true = .otherwise :: (code halt).events ++ [.close] := rfl
      simpa [armLines, later, armsFrom, armChain, asOther, otherEdits, Target.armEdits, closeLine]
        using whole
  | cons instr instrs ih =>
      have here : pc < program.length := by
        rw [List.length_cons] at inside
        omega
      have first := denotes_arm program reads pc here instr (pc == 0)
      have rest := ih (pc + 1) (by rw [← inside, List.length_cons]; omega) (by simp)
      have whole := yields_append first rest
      have lines : armLines program pc (instr :: instrs) =
          armHeader pc (pc == 0) ++ (armCode program pc instr).events ++
            armLines program (pc + 1) instrs := by
        by_cases start : pc = 0
        · subst start
          simp [armLines, armHeader, armsFrom, armChain, Code.eventsAs, Code.events]
        · simp [armLines, start, armHeader, armsFrom, armChain, Code.eventsAs, Code.events]
      rw [lines]
      simpa only [Target.armEdits, List.append_assoc] using whole

theorem denotes_loop : Denotes read (loopEdits program) (loopCode program).events := by
  have nonempty : program.code ≠ [] := List.ne_nil_of_mem program.halts
  have inner := denotes_arms program reads 0 program.code (Nat.zero_add _) fun _ => nonempty
  have brace := denotes_line reads (reads.further fixed_lines.closing)
  have limit := denotes_line reads (reads.further (fixed_lines.failed .stepLimit))
  have looped := denotes_block reads (reads.further (loop_row program)) inner
  have whole := yields_append looped (yields_append brace limit)
  simpa [loopEdits, loopCode, armLines, closeLine, Code.eventsAs, Code.events, Code.inBlock]
    using whole

theorem denotes_method :
    Denotes read (locals.map (fun declaration => .line declaration.text) ++ loopEdits program)
      (methodCode program).events := by
  have stackLine := denotes_line reads (reads.further fixed_lines.stackLine)
  have spLine := denotes_line reads (reads.further fixed_lines.spLine)
  have pcLine := denotes_line reads (reads.further fixed_lines.pcLine)
  have stepsLine := denotes_line reads (reads.further fixed_lines.stepsLine)
  exact yields_append stackLine (yields_append spLine (yields_append pcLine
    (yields_append stepsLine (denotes_loop program reads))))

theorem read_by_rendered (name : Text) (valid : Language.isFunctionName .java name = true) :
    readBy read (Language.java.render name program) = some (programCode name program) := by
  have inner := denotes_block reads (reads.further (head_row name valid))
    (denotes_method program reads)
  have whole := yields_append inner (denotes_line reads (reads.further fixed_lines.closing))
  have events : [.define ⟨name, .xs⟩] ++ (methodCode program).events ++ [.close] =
      (programCode name program).events := by
    simp [programCode, Code.events, Code.eventsAs, Code.inBlock]
  rw [Language.render_source, source_edits, readBy, yields_written reads.clean whole, Option.bind_some,
    events, assemble_events]

end

/-- The rendered text reads as the method that it was rendered for. -/
theorem read_rendered (name : Text) (program : Program)
    (valid : Language.isFunctionName .java name = true) (small : program.length < 2 ^ 31) :
    read (Language.java.render name program) = some (programCode name program) :=
  read_by_rendered program (reads_rows program.length small) name valid

end StackMachine.Java

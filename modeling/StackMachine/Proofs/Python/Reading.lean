import StackMachine.Proofs.Python.Layout
import StackMachine.Proofs.Source.Run

/-!
# Rendered Python reads back

Every line that the renderer writes spells the tree it was written from, whatever number or name it
holds. So the whole text reads as a function that defines the two helpers and runs a loop over one
arm for each instruction.
-/

namespace StackMachine.Python

open StackMachine.Render StackMachine.Render.Python StackMachine.Source

set_option autoImplicit false

theorem row_of_tokens {text : Text} {first : Token Word} {rest : Tokens} {line : Line}
    (cut : lexicon.tokens text = some (first :: rest))
    (starts : text.takeWhile (· == blank) = []) (reads : line? (first :: rest) = some line) :
    row? text = some (some ⟨0, line⟩) := by
  simp [row?, cut, reads, starts]

/-- The statement is read from its own text. -/
def IsSpelled (stmt : Simple) : Prop := row? stmt.text = some (some ⟨0, .simple stmt⟩)

def IsTested (test : Expr) : Prop :=
  row? ("if " ++ test.text ++ ":") = some (some ⟨0, .branch test⟩)

instance (stmt : Simple) : Decidable (IsSpelled stmt) :=
  inferInstanceAs (Decidable (row? stmt.text = _))

instance (test : Expr) : Decidable (IsTested test) :=
  inferInstanceAs (Decidable (row? ("if " ++ test.text ++ ":") = _))

def helperLine (helper : Helper) : Text :=
  "def " ++ helper.name ++ "(" ++
    Text.join ", " (helper.parameters.map fun parameter => parameter.text ++ ": int") ++ ") -> int:"

/-- The helper is read from its own lines. -/
structure IsDefined (helper : Helper) : Prop where
  header : row? (helperLine helper) = some (some ⟨0, .define ⟨helper.name, helper.parameters⟩⟩)
  nonempty : helper.body ≠ []
  spelled : ∀ stmt ∈ helper.body, IsSpelled stmt

/-- The lines that hold no part of the program are read as they were written. -/
structure FixedLines : Prop where
  failed : ∀ status, IsSpelled (fail status)
  answered : IsSpelled (.answer .ok (.element .stack last))
  stackEmpty : IsTested (.isEmpty .stack)
  stackShort : IsTested (.compare .lt (.length .stack) (.int 2))
  inputsEmpty : IsTested (.isEmpty .xs)
  zeroDivisor : IsTested (.compare .eq (.var .b) (.int 0))
  popped : ∀ name : Var, name = .a ∨ name = .b ∨ name = .c →
    IsSpelled (.assign name (.removeLast .stack))
  binaryPushed : ∀ op, IsSpelled (.append .stack (binaryValue op))
  unaryPushed : ∀ op, IsSpelled (.append .stack (unaryValue op))
  effects : ∀ op, IsSpelled (stackEffect op)
  conditions : ∀ condition, IsTested (conditionTest condition)
  counted : IsSpelled (.increment .steps)
  declarations : ∀ stmt ∈ locals, IsSpelled stmt
  otherwise : row? "else:" = some (some ⟨0, .otherwise⟩)
  wrap : IsDefined wrapHelper
  truncDiv : IsDefined truncDivHelper

theorem fixed_lines : FixedLines where
  failed status := by cases status <;> decide +kernel
  answered := by decide +kernel
  stackEmpty := by decide +kernel
  stackShort := by decide +kernel
  inputsEmpty := by decide +kernel
  zeroDivisor := by decide +kernel
  popped := by rintro _ (rfl | rfl | rfl) <;> decide +kernel
  binaryPushed op := by cases op <;> decide +kernel
  unaryPushed op := by cases op <;> decide +kernel
  effects op := by cases op <;> decide +kernel
  conditions condition := by cases condition <;> decide +kernel
  counted := by decide +kernel
  declarations := by decide +kernel
  otherwise := by decide +kernel
  wrap := ⟨by decide +kernel, by decide, by decide +kernel⟩
  truncDiv := ⟨by decide +kernel, by decide, by decide +kernel⟩

def pcGap : Gap lexicon where
  before := "pc = "
  after := []
  left := [.word (.var .pc), .symbol .assign]
  right := []
  leftTokens := by decide +kernel
  rightTokens := rfl
  between := between_assignment
  ends := rfl

theorem set_pc_spelled (position : Nat) : IsSpelled (setPc position) := by
  have cut := pcGap.tokens_literal (Simple.text (setPc position)) position []
    rfl (by simp only [pcGap, List.append_nil]; rfl)
  exact row_of_tokens cut rfl rfl

def pushGap : SignedGap lexicon where
  before := "stack.append("
  after := ")"
  left := [.word (.var .stack), .symbol .dot, .word .append, .symbol .openParen]
  right := [.symbol .closeParen]
  leftTokens := by decide +kernel
  signTokens := by decide +kernel
  rightTokens := by decide +kernel
  between := rfl
  signBetween := rfl
  ends := rfl

theorem push_int_spelled (value : Int) : IsSpelled (.append .stack (.int value)) := by
  have cut := pushGap.tokens_int (Simple.text (.append .stack (.int value))) value [] rfl rfl
  cases value with
  | ofNat number => exact row_of_tokens cut rfl rfl
  | negSucc below => exact row_of_tokens cut rfl rfl

def cyclicGap : SignedGap lexicon where
  before := "stack.append(xs["
  after := " % len(xs)])"
  left := [.word (.var .stack), .symbol .dot, .word .append, .symbol .openParen,
    .word (.var .xs), .symbol .openBracket]
  right := [.symbol .percent, .word .len, .symbol .openParen, .word (.var .xs),
    .symbol .closeParen, .symbol .closeBracket, .symbol .closeParen]
  leftTokens := by decide +kernel
  signTokens := by decide +kernel
  rightTokens := by decide +kernel
  between := rfl
  signBetween := rfl
  ends := rfl

/-- The sign of a literal belongs to it, so the remainder is taken of the whole number. -/
theorem push_cyclic_spelled (index : Int) :
    IsSpelled (.append .stack (.element .xs (.arith .mod (.int index) (.length .xs)))) := by
  have cut := cyclicGap.tokens_int
    (Simple.text (.append .stack (.element .xs (.arith .mod (.int index) (.length .xs))))) index []
    rfl (by simp only [Simple.text, Expr.text, Operator.text, List.append_assoc]; rfl)
  cases index with
  | ofNat number => exact row_of_tokens cut rfl rfl
  | negSucc below => exact row_of_tokens cut rfl rfl

def directGap : Gap lexicon where
  before := "stack.append(xs["
  after := "])"
  left := cyclicGap.left
  right := [.symbol .closeBracket, .symbol .closeParen]
  leftTokens := cyclicGap.leftTokens
  rightTokens := by decide +kernel
  between := rfl
  ends := rfl

theorem push_direct_spelled (index : Nat) :
    IsSpelled (.append .stack (.element .xs (.int index))) := by
  have cut := directGap.tokens_literal (Simple.text (.append .stack (.element .xs (.int index))))
    index [] rfl (by simp only [Simple.text, Expr.text, List.append_assoc]; rfl)
  exact row_of_tokens cut rfl rfl

def boundGap : Gap lexicon where
  before := "if "
  after := " >= len(xs):"
  left := [.word .ifWord]
  right := [.symbol .ge, .word .len, .symbol .openParen, .word (.var .xs), .symbol .closeParen,
    .symbol .colon]
  leftTokens := by decide +kernel
  rightTokens := by decide +kernel
  between := rfl
  ends := rfl

theorem index_tested (index : Nat) : IsTested (.compare .ge (.int index) (.length .xs)) := by
  have cut := boundGap.tokens_literal
    ("if " ++ (Expr.compare .ge (.int index) (.length .xs)).text ++ ":") index []
    rfl (by simp only [Expr.text, Relation.text, List.append_assoc]; rfl)
  exact row_of_tokens cut rfl rfl

def armTest (position : Nat) : Expr := .compare .eq (.var .pc) (.int position)

def armHeader (position : Nat) (first : Bool) : Line :=
  if first then .branch (armTest position) else .orBranch (armTest position)

def firstArmGap : Gap lexicon where
  before := "if pc == "
  after := ":"
  left := [.word .ifWord, .word (.var .pc), .symbol .eq]
  right := [.symbol .colon]
  leftTokens := by decide +kernel
  rightTokens := by decide +kernel
  between := rfl
  ends := rfl

def laterArmGap : Gap lexicon where
  before := "elif pc == "
  after := ":"
  left := [.word .elifWord, .word (.var .pc), .symbol .eq]
  right := [.symbol .colon]
  leftTokens := by decide +kernel
  rightTokens := by decide +kernel
  between := rfl
  ends := rfl

theorem arm_row (position : Nat) (first : Bool) :
    row? ((if first then Text.ascii "if " else "elif ") ++ (armTest position).text ++ ":") =
      some (some ⟨0, armHeader position first⟩) := by
  cases first with
  | true =>
      have cut := firstArmGap.tokens_literal ("if " ++ (armTest position).text ++ ":") position []
        rfl rfl
      exact row_of_tokens cut rfl rfl
  | false =>
      have cut := laterArmGap.tokens_literal ("elif " ++ (armTest position).text ++ ":") position []
        rfl rfl
      exact row_of_tokens cut rfl rfl

def loopGap : SignedGap lexicon where
  before := "while steps < "
  after := ":"
  left := [.word .whileWord, .word (.var .steps), .symbol .lt]
  right := [.symbol .colon]
  leftTokens := by decide +kernel
  signTokens := by decide +kernel
  rightTokens := by decide +kernel
  between := between_budget
  signBetween := between_budget_sign
  ends := rfl

theorem loop_row (program : Program) :
    row? ("while " ++ (loopTest program).text ++ ":") = some (some ⟨0, .loop (loopTest program)⟩) := by
  have cut := loopGap.tokens_int ("while " ++ (loopTest program).text ++ ":")
    program.maxSteps.toInt [] rfl rfl
  rw [loopTest] at cut ⊢
  generalize program.maxSteps.toInt = budget at cut ⊢
  cases budget with
  | ofNat number => exact row_of_tokens cut rfl rfl
  | negSucc below => exact row_of_tokens cut rfl rfl

def headText (name : Text) : Text := "def " ++ name ++ "(xs: list[int]) -> tuple[int, int]:"

def headGap : Gap lexicon where
  before := "def "
  after := "(xs: list[int]) -> tuple[int, int]:"
  left := [.word .defWord]
  right := [.symbol .openParen, .word (.var .xs), .symbol .colon, .word .list,
    .symbol .openBracket, .word .int, .symbol .closeBracket, .symbol .closeParen, .symbol .arrow,
    .word .tuple, .symbol .openBracket, .word .int, .symbol .comma, .word .int,
    .symbol .closeBracket, .symbol .colon]
  leftTokens := by decide +kernel
  rightTokens := by decide +kernel
  between := rfl
  ends := rfl

theorem head_tokens (name : Text) (valid : Language.isFunctionName .python name = true) :
    lexicon.tokens (headText name) =
      some (.word .defWord :: .word (Word.ofText name) :: headGap.right) := by
  simp only [Language.isFunctionName, Bool.and_eq_true] at valid
  have cut := headGap.tokens_name name valid.1.1
  simp only [headGap] at cut
  rw [headText, List.append_assoc, cut]
  rfl

/-- A valid name is no keyword and hides nothing that the text calls, but nothing keeps it from
being the constant that a program may not bind. -/
theorem valid_is_bindable (name : Text) (valid : Language.isFunctionName .python name = true) :
    isBindable name = (name != debugConstant) := by
  simp only [Language.isFunctionName, Bool.and_eq_true, Bool.not_eq_true',
    List.contains_eq_mem, decide_eq_false_iff_not] at valid
  have reserved : ∀ word ∈ keywords ++ builtins, word ∈ Language.reserved .python := by
    decide +kernel
  have noKeyword : name ∉ keywords :=
    fun member => valid.2 (reserved name (List.mem_append_left _ member))
  have noBuiltin : name ∉ builtins :=
    fun member => valid.2 (reserved name (List.mem_append_right _ member))
  simp [isBindable, noKeyword, noBuiltin]

theorem head_row (name : Text) (valid : Language.isFunctionName .python name = true) :
    row? (headText name) =
      if name = debugConstant then none
      else some (some ⟨0, .define ⟨name, [.xs]⟩⟩) := by
  have bindable := valid_is_bindable name valid
  by_cases debug : name = debugConstant
  · rw [if_pos debug, row?, head_tokens name valid]
    have refused : isBindable name = false := by rw [bindable, debug, bne_self_eq_false]
    simp [headGap, line?, head?, parametersWithin, annotation?, Word.text_of_text, refused]
  · rw [if_neg debug]
    have admitted : isBindable name = true := by simp [bindable, debug]
    refine row_of_tokens (head_tokens name valid) rfl ?_
    simp [headGap, line?, head?, parametersWithin, annotation?, Word.text_of_text, admitted]

/-- Every line of the statement is read as it was written, and no block is empty. -/
def IsLegible : Stmt → Prop
  | .simple stmt => IsSpelled stmt
  | .ifThen test body => IsTested test ∧ body ≠ [] ∧ ∀ stmt ∈ body, IsSpelled stmt
  | .ifElse test body other =>
      IsTested test ∧ (body ≠ [] ∧ ∀ stmt ∈ body, IsSpelled stmt) ∧
        other ≠ [] ∧ ∀ stmt ∈ other, IsSpelled stmt

def rowCode : List Simple → Code Simple Expr Head
  | [] => .done
  | stmt :: rest => .simple stmt (rowCode rest)

def code : List Stmt → Code Simple Expr Head
  | [] => .done
  | .simple stmt :: rest => .simple stmt (code rest)
  | .ifThen test body :: rest => .branch test (rowCode body) .done (code rest)
  | .ifElse test body other :: rest => .branch test (rowCode body) (rowCode other) (code rest)

theorem denotes_row (stmts : List Simple) (spelled : ∀ stmt ∈ stmts, IsSpelled stmt) :
    Denotes (Simple.edits stmts) (rowCode stmts).events := by
  induction stmts with
  | nil => exact denotes_nil
  | cons stmt stmts ih =>
      have first := denotes_line (spelled stmt (by simp)) rfl
      have rest := ih fun other member => spelled other (List.mem_cons_of_mem _ member)
      exact denotes_append first rest

theorem denotes_body {text : Text} {header : Line} {stmts : List Simple}
    (reads : row? text = some (some ⟨0, header⟩)) (opens : Line.opens header = true)
    (nonempty : stmts ≠ []) (spelled : ∀ stmt ∈ stmts, IsSpelled stmt) :
    Denotes (.line text :: Edit.nested (Simple.edits stmts))
      (header :: (rowCode stmts).events ++ [.close]) := by
  refine denotes_block reads opens ?_ (denotes_row stmts spelled)
  cases stmts with
  | nil => exact absurd rfl nonempty
  | cons stmt stmts => exact List.cons_ne_nil _ _

theorem row_code_as_other {stmts : List Simple} (nonempty : stmts ≠ []) :
    (rowCode stmts).eventsAs true = .otherwise :: (rowCode stmts).events ++ [.close] := by
  cases stmts with
  | nil => exact absurd rfl nonempty
  | cons stmt stmts => rfl

theorem denotes_code (stmts : List Stmt) (legible : ∀ stmt ∈ stmts, IsLegible stmt) :
    Denotes (stmts.flatMap Stmt.edits) (code stmts).events := by
  induction stmts with
  | nil => exact denotes_nil
  | cons stmt stmts ih =>
      have rest := ih fun other member => legible other (List.mem_cons_of_mem _ member)
      have first := legible stmt (by simp)
      rw [List.flatMap_cons]
      cases stmt with
      | simple stmt => exact denotes_append (denotes_line first rfl) rest
      | ifThen test body =>
          obtain ⟨tested, nonempty, spelled⟩ := first
          have taken := denotes_body tested rfl nonempty spelled
          simpa [code, events_branch, Code.eventsAs, Stmt.edits] using denotes_append taken rest
      | ifElse test body other =>
          obtain ⟨tested, ⟨nonempty, spelled⟩, otherNonempty, otherSpelled⟩ := first
          have taken := denotes_body tested rfl nonempty spelled
          have untaken := denotes_body fixed_lines.otherwise rfl otherNonempty otherSpelled
          have whole := denotes_append taken (denotes_append untaken rest)
          simpa [code, events_branch, row_code_as_other otherNonempty, Stmt.edits] using whole

theorem if_fail_legible (test : Expr) (status : Status) (tested : IsTested test) :
    IsLegible (.ifThen test [fail status]) :=
  ⟨tested, by simp, by simpa using fixed_lines.failed status⟩

theorem require_depth_legible (depth : Nat) (depthIs : depth = 1 ∨ depth = 2) :
    IsLegible (requireDepth depth) := by
  rcases depthIs with rfl | rfl
  · exact if_fail_legible _ _ fixed_lines.stackEmpty
  · exact if_fail_legible _ _ fixed_lines.stackShort

theorem halt_legible : ∀ stmt ∈ halt, IsLegible stmt := by
  have failed := if_fail_legible _ .emptyStackOnHalt fixed_lines.stackEmpty
  have answered : IsLegible (.simple (.answer .ok (.element .stack last))) := fixed_lines.answered
  simpa [halt] using ⟨failed, answered⟩

theorem load_input_legible (index : StackMachine.Word) (mode : InputMode) (next : Nat) :
    ∀ stmt ∈ loadInput index mode next, IsLegible stmt := by
  have goesOn : IsLegible (.simple (setPc next)) := set_pc_spelled next
  cases mode with
  | cyclic =>
      have failed := if_fail_legible _ .invalidInputIndex fixed_lines.inputsEmpty
      have loaded : IsLegible (.simple (.append .stack (.element .xs
          (.arith .mod (.int index.toInt) (.length .xs))))) := push_cyclic_spelled index.toInt
      simpa [loadInput] using ⟨failed, loaded, goesOn⟩
  | direct =>
      by_cases negative : index < 0
      · have failed : IsLegible (.simple (fail .invalidInputIndex)) := fixed_lines.failed _
        simpa [loadInput, negative] using failed
      · have natural : index.toInt = (index.toInt.toNat : Int) := by
          have lower : 0 ≤ index := Int64.not_lt.mp negative
          have bound : (0 : Int) ≤ index.toInt := Int64.le_iff_toInt_le.mp lower
          omega
        have loaded : IsLegible (.simple (.append .stack (.element .xs (.int index.toInt)))) := by
          rw [natural]
          exact push_direct_spelled _
        have tested : IsTested (.compare .ge (.int index.toInt) (.length .xs)) := by
          rw [natural]
          exact index_tested _
        simpa [loadInput, negative] using ⟨if_fail_legible _ _ tested, loaded, goesOn⟩

theorem binary_legible (op : BinaryOp) (next : Nat) :
    ∀ stmt ∈ binary op next, IsLegible stmt := by
  have goesOn : IsLegible (.simple (setPc next)) := set_pc_spelled next
  have right : IsLegible (.simple (.assign .b (.removeLast .stack))) :=
    fixed_lines.popped .b (Or.inr (Or.inl rfl))
  have left : IsLegible (.simple (.assign .a (.removeLast .stack))) :=
    fixed_lines.popped .a (Or.inl rfl)
  have checked : ∀ stmt ∈ divisorCheck op, IsLegible stmt := by
    cases op with
    | div | mod => simpa [divisorCheck] using if_fail_legible _ _ fixed_lines.zeroDivisor
    | add | sub | mul | eq | gt | lt => simp [divisorCheck]
  have pushed : IsLegible (.simple (.append .stack (binaryValue op))) := fixed_lines.binaryPushed op
  have depth := require_depth_legible 2 (Or.inr rfl)
  intro stmt member
  simp only [binary, List.mem_append, List.mem_cons, List.not_mem_nil, or_false] at member
  rcases member with ((rfl | rfl | rfl) | check) | rfl | rfl
  · exact depth
  · exact right
  · exact left
  · exact checked stmt check
  · exact pushed
  · exact goesOn

theorem unary_legible (op : UnaryOp) (next : Nat) : ∀ stmt ∈ unary op next, IsLegible stmt := by
  have goesOn : IsLegible (.simple (setPc next)) := set_pc_spelled next
  have popped : IsLegible (.simple (.assign .a (.removeLast .stack))) :=
    fixed_lines.popped .a (Or.inl rfl)
  have pushed : IsLegible (.simple (.append .stack (unaryValue op))) := fixed_lines.unaryPushed op
  have depth := require_depth_legible 1 (Or.inl rfl)
  simpa [unary, Opcode.requiredDepth] using ⟨depth, popped, pushed, goesOn⟩

theorem stack_legible (op : StackOp) (next : Nat) : ∀ stmt ∈ stack op next, IsLegible stmt := by
  have goesOn : IsLegible (.simple (setPc next)) := set_pc_spelled next
  have changed : IsLegible (.simple (stackEffect op)) := fixed_lines.effects op
  have depth : IsLegible (requireDepth (Opcode.stack op).requiredDepth) :=
    require_depth_legible _ (Opcode.stack_depth op)
  simpa [stack] using ⟨depth, changed, goesOn⟩

theorem jump_spelled (target : Option Nat) :
    IsSpelled (jump (target.map fun position => (position : Int))) := by
  cases target with
  | none => exact fixed_lines.failed _
  | some position => exact set_pc_spelled position

theorem branch_legible (condition : Condition) (target : Option Nat) (next : Nat) :
    ∀ stmt ∈ branch condition (target.map fun position => (position : Int)) next,
      IsLegible stmt := by
  have goesOn : IsSpelled (setPc next) := set_pc_spelled next
  have popped : IsLegible (.simple (.assign .c (.removeLast .stack))) :=
    fixed_lines.popped .c (Or.inr (Or.inr rfl))
  have tested := fixed_lines.conditions condition
  have depth := require_depth_legible 1 (Or.inl rfl)
  have jumps := jump_spelled target
  cases target with
  | none =>
      have untaken : IsLegible (.simple (setPc next)) := goesOn
      have taken : IsLegible (.ifThen (conditionTest condition) [jump none]) :=
        ⟨tested, by simp, by simpa using jumps⟩
      simpa [branch, Opcode.requiredDepth] using ⟨depth, popped, taken, untaken⟩
  | some position =>
      have both : IsLegible (.ifElse (conditionTest condition) [jump (some (position : Int))]
          [setPc next]) :=
        ⟨tested, ⟨by simp, by simpa using jumps⟩, by simp, by simpa using goesOn⟩
      simpa [branch, Opcode.requiredDepth] using ⟨depth, popped, both⟩

theorem body_legible (program : Program) (pc : Nat) (instr : Instr) :
    ∀ stmt ∈ (body (.ofInstr program pc instr)).1, IsLegible stmt := by
  cases instr with
  | halt => exact halt_legible
  | pushConst value =>
      have pushed : IsLegible (.simple (.append .stack (.int value.toInt))) :=
        push_int_spelled value.toInt
      have goesOn : IsLegible (.simple (setPc (pc + 1))) := set_pc_spelled (pc + 1)
      simpa [Action.ofInstr, body] using ⟨pushed, goesOn⟩
  | loadInput index => exact load_input_legible index program.inputMode (pc + 1)
  | binary op => exact binary_legible op (pc + 1)
  | unary op => exact unary_legible op (pc + 1)
  | stack op => exact stack_legible op (pc + 1)
  | jump target =>
      have jumps : IsLegible (.simple _) :=
        jump_spelled (program.jumpMode.resolve? program.length target)
      simpa [Action.ofInstr, body] using jumps
  | branch condition target =>
      exact branch_legible condition (program.jumpMode.resolve? program.length target) (pc + 1)

def armCode (program : Program) (pc : Nat) (instr : Instr) : Code Simple Expr Head :=
  .simple (.increment .steps) (code (body (.ofInstr program pc instr)).1)

def armsFrom (program : Program) (pc : Nat) (instrs : List Instr) : Code Simple Expr Head :=
  armChain armTest (armCode program) (code halt) pc instrs

def loopCode (program : Program) : Code Simple Expr Head :=
  .loop (loopTest program) (armsFrom program 0 program.code)
    (.simple (fail .stepLimit) .done)

def localsCode (program : Program) : Code Simple Expr Head :=
  .simple (.emptyList .stack) (.simple (.assign .pc (.int 0))
    (.simple (.assign .steps (.int 0)) (loopCode program)))

def helperCode (helper : Helper) (rest : Code Simple Expr Head) : Code Simple Expr Head :=
  .define ⟨helper.name, helper.parameters⟩ (rowCode helper.body) rest

def functionCode (program : Program) : Code Simple Expr Head :=
  helperCode wrapHelper (helperCode truncDivHelper (localsCode program))

def programCode (name : Text) (program : Program) : Code Simple Expr Head :=
  .define ⟨name, [.xs]⟩ (functionCode program) .done

theorem denotes_other_arm :
    Denotes (.line "else:" :: Edit.nested (halt.flatMap Stmt.edits)) ((code halt).eventsAs true) :=
  denotes_block fixed_lines.otherwise rfl (List.cons_ne_nil _ _) (denotes_code halt halt_legible)

theorem arm_edits (pc : Nat) (action : Action) (first : Bool) :
    target.arm pc first ++ (target.action action).1 ++ target.endArm =
      .line ((if first then Text.ascii "if " else "elif ") ++ (armTest pc).text ++ ":") ::
        Edit.nested (.line (Simple.increment .steps).text ::
          (body action).1.flatMap Stmt.edits) := by
  simp [target, arm, armTest, Edit.nested]

theorem denotes_arm (program : Program) (pc : Nat) (instr : Instr) (first : Bool) :
    Denotes
      (target.arm pc first ++ (target.action (.ofInstr program pc instr)).1 ++ target.endArm)
      (armHeader pc first :: (armCode program pc instr).events ++ [.close]) := by
  have counted := denotes_line fixed_lines.counted rfl
  have acted := denotes_code _ (body_legible program pc instr)
  have inner : Denotes (.line (Simple.increment .steps).text ::
      (body (.ofInstr program pc instr)).1.flatMap Stmt.edits) (armCode program pc instr).events :=
    denotes_append counted acted
  have opens : Line.opens (armHeader pc first) = true := by cases first <;> rfl
  rw [arm_edits]
  exact denotes_block (arm_row pc first) opens (List.cons_ne_nil _ _) inner

/-- The arms from a position on, down to the one for every other position. The first arm of all is
the only one that begins a conditional. -/
theorem denotes_arms (program : Program) (pc : Nat) (instrs : List Instr)
    (begun : pc = 0 → instrs ≠ []) :
    Denotes
      (target.armEdits program pc instrs ++
        .line "else:" :: Edit.nested (halt.flatMap Stmt.edits))
      ((armsFrom program pc instrs).eventsAs (pc != 0)) := by
  induction instrs generalizing pc with
  | nil =>
      have later : (pc != 0) = true := by simpa using begun
      rw [later]
      exact denotes_other_arm
  | cons instr instrs ih =>
      have first := denotes_arm program pc instr (pc == 0)
      have rest := ih (pc + 1) (by simp)
      have whole := denotes_append first rest
      have events : (armsFrom program pc (instr :: instrs)).eventsAs (pc != 0) =
          (armHeader pc (pc == 0) :: (armCode program pc instr).events ++ [.close]) ++
            (armsFrom program (pc + 1) instrs).eventsAs (pc + 1 != 0) := by
        rw [armsFrom, armChain, Code.eventsAs, List.append_assoc]
        by_cases start : pc = 0 <;> simp [start, armHeader, armsFrom, Code.events]
      rw [events]
      simpa only [Target.armEdits, List.append_assoc] using whole

theorem denotes_helper (helper : Helper) (rest : List Edit) (restCode : Code Simple Expr Head)
    (defined : IsDefined helper) (denotes : Denotes rest restCode.events) :
    Denotes (helper.edits ++ rest) (helperCode helper restCode).events := by
  have block := denotes_body defined.header rfl defined.nonempty defined.spelled
  have whole := denotes_append block (denotes_append denotes_blank denotes)
  simpa [Helper.edits, helperLine, helperCode, Code.events, Code.eventsAs, Code.inBlock] using whole

theorem denotes_loop (program : Program) :
    Denotes
      (.line ("while " ++ (loopTest program).text ++ ":") ::
        Edit.nested (target.armEdits program 0 program.code ++
          .line "else:" :: Edit.nested (halt.flatMap Stmt.edits)) ++
        [.line (fail .stepLimit).text])
      (loopCode program).events := by
  have nonempty : program.code ≠ [] := List.ne_nil_of_mem program.halts
  have inner := denotes_arms program 0 program.code fun _ => nonempty
  have limit := denotes_line (fixed_lines.failed .stepLimit) rfl
  have begun : (armsFrom program 0 program.code).events ≠ [] := by
    obtain ⟨instr, instrs, shape⟩ := List.exists_cons_of_ne_nil nonempty
    rw [shape]
    exact List.cons_ne_nil _ _
  have looped := denotes_append (denotes_block (loop_row program) rfl begun inner) limit
  simpa [loopCode, Code.eventsAs, Code.events, Code.inBlock] using looped

theorem denotes_function (program : Program) :
    Denotes
      (wrapHelper.edits ++ (truncDivHelper.edits ++ (Simple.edits locals ++
        (.line ("while " ++ (loopTest program).text ++ ":") ::
          Edit.nested (target.armEdits program 0 program.code ++
            .line "else:" :: Edit.nested (halt.flatMap Stmt.edits)) ++
          [.line (fail .stepLimit).text]))))
      (functionCode program).events := by
  have declared := denotes_row locals fixed_lines.declarations
  have looped : Denotes _ (localsCode program).events :=
    denotes_append declared (denotes_loop program)
  exact denotes_helper wrapHelper _ _ fixed_lines.wrap
    (denotes_helper truncDivHelper _ _ fixed_lines.truncDiv looped)

theorem source_edits (name : Text) (program : Program) :
    Language.python.target.source name program =
      .line (headText name) :: Edit.nested (wrapHelper.edits ++ (truncDivHelper.edits ++
        (Simple.edits locals ++ (.line ("while " ++ (loopTest program).text ++ ":") ::
          Edit.nested (target.armEdits program 0 program.code ++
            .line "else:" :: Edit.nested (halt.flatMap Stmt.edits)) ++
          [.line (fail .stepLimit).text])))) := by
  simp [Target.source, Language.target, target, opening, otherArm, headText, Edit.nested, body]

theorem read_rendered (name : Text) (program : Program)
    (valid : Language.isFunctionName .python name = true) (plain : name ≠ debugConstant) :
    read (Language.python.render name program) = some (programCode name program) := by
  have header := head_row name valid
  rw [if_neg plain] at header
  have whole := denotes_block header rfl (List.cons_ne_nil _ _) (denotes_function program)
  rw [Language.render_source, source_edits]
  exact read_denoted whole

/-- Under the name of the constant the first line is refused, and with it the text. -/
theorem read_debug (program : Program)
    (valid : Language.isFunctionName .python debugConstant = true) :
    read (Language.python.render debugConstant program) = none := by
  have header := head_row debugConstant valid
  rw [if_pos rfl] at header
  have first : ∃ rest, rows indentWidth 0 (Language.python.target.source debugConstant program) =
      headText debugConstant :: rest := ⟨_, rfl⟩
  obtain ⟨rest, shape⟩ := first
  have clean : Text.newline ∉ headText debugConstant := by decide +kernel
  have lines := Text.lines_cons (headText debugConstant) (Text.terminated rest) clean
  rw [read, Language.render_source, write_rows, shape, Text.terminated_cons, lines, List.mapM_cons,
    header]
  rfl

end StackMachine.Python

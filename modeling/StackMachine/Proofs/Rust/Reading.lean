import StackMachine.Proofs.Policy
import StackMachine.Proofs.Rust.Layout
import StackMachine.Proofs.Source.Run
import StackMachine.Proofs.Word

/-!
# Rendered Rust reads back

Every line that the renderer writes spells the tree it was written from, whatever its literals are.
So the whole text reads as a function that runs a loop over one arm for each instruction, with a last
arm for every other position and the spent budget as the value of the function.
-/

namespace StackMachine.Rust

open StackMachine.Render StackMachine.Render.Rust StackMachine.Source

set_option autoImplicit false

theorem row_of_tokens {text : Text} {tokens : Tokens} {lines : List Line}
    (cut : lexicon.tokens text = some tokens) (reads : line? tokens = some lines) :
    row? text = some lines := by
  rw [row?, cut, Option.bind_some, reads]

def IsSpelled (stmt : Simple) : Prop := row? stmt.text = some [.event (.simple (.plain stmt))]

def IsTested (test : Expr) : Prop := row? (ifLine test) = some [.event (.branch test)]

instance (stmt : Simple) : Decidable (IsSpelled stmt) :=
  inferInstanceAs (Decidable (row? stmt.text = _))

instance (test : Expr) : Decidable (IsTested test) :=
  inferInstanceAs (Decidable (row? (ifLine test) = _))

def cyclicIndex (receiver : Expr) : Expr :=
  .toUsize (.remEuclid receiver (.toI64 (.length .xs)))

/-- The lines that hold no part of the program are read as they were written. -/
structure FixedLines : Prop where
  failed : ∀ status, IsSpelled (fail status)
  answered : IsSpelled (.answer .ok top)
  leastPushed : IsSpelled (.push .stack (literal Int64.minValue))
  leastBound : IsSpelled (.bind .i (cyclicIndex (receiver Int64.minValue)))
  inputPushed : IsSpelled (.push .stack (.element .xs (.var .i)))
  popped : ∀ name : Var, name = .a ∨ name = .b ∨ name = .c → IsSpelled (.bind name pop)
  binaryPushed : ∀ op, IsSpelled (.push .stack (binaryValue op))
  unaryPushed : ∀ op, IsSpelled (.push .stack (unaryValue op))
  effects : ∀ op, ∀ stmt ∈ stackEffect op, IsSpelled stmt
  counted : IsSpelled (.increment .steps)
  stackEmpty : IsTested (.isEmpty .stack)
  stackShort : IsTested (.compare .lt (.length .stack) (.int 2))
  inputsEmpty : IsTested (.isEmpty .xs)
  zeroDivisor : IsTested (.compare .eq (.var .b) (.int 0))
  conditions : ∀ condition, IsTested (conditionTest condition)
  declarations : ∀ declaration ∈ locals,
    row? declaration.text = some [.event (.simple (.initial declaration))]
  matchLine : row? "match pc \x7b" = some [.matchOn .pc]
  otherArm : row? "_ => \x7b" = some [.otherArm]
  otherwise : row? "\x7d else \x7b" = some [.event .close, .event .otherwise]
  attributes :
    row? "#[allow(unused_mut, unused_assignments, unused_variables, unreachable_code)]" = some []
  spent : row? (pair .stepLimit (.int 0)) = some [.last .stepLimit (.int 0)]

theorem fixed_lines : FixedLines where
  failed status := by cases status <;> decide +kernel
  answered := by decide +kernel
  leastPushed := by decide +kernel
  leastBound := by decide +kernel
  inputPushed := by decide +kernel
  popped := by rintro _ (rfl | rfl | rfl) <;> decide +kernel
  binaryPushed op := by cases op <;> decide +kernel
  unaryPushed op := by cases op <;> decide +kernel
  effects op := by cases op <;> decide +kernel
  counted := by decide +kernel
  stackEmpty := by decide +kernel
  stackShort := by decide +kernel
  inputsEmpty := by decide +kernel
  zeroDivisor := by decide +kernel
  conditions condition := by cases condition <;> decide +kernel
  declarations := by decide +kernel
  matchLine := by decide +kernel
  otherArm := by decide +kernel
  otherwise := by decide +kernel
  attributes := by decide +kernel
  spent := by decide +kernel

def pcGap : Gap lexicon where
  before := "pc = "
  after := ";"
  left := [.word (.var .pc), .symbol .assign]
  right := [.symbol .semicolon]
  leftTokens := by decide +kernel
  rightTokens := by decide +kernel
  between := between_assignment
  ends := ends_statement

theorem set_pc_spelled (position : Nat) : IsSpelled (setPc position) := by
  have cut := pcGap.tokens_literal (Simple.text (setPc position)) position [] rfl rfl
  exact row_of_tokens cut rfl

def pushGap : SignedGap lexicon where
  before := "stack.push("
  after := ");"
  left := [.word (.var .stack), .symbol .dot, .word .push, .symbol .openParen]
  right := [.symbol .closeParen, .symbol .semicolon]
  leftTokens := by decide +kernel
  signTokens := by decide +kernel
  rightTokens := by decide +kernel
  between := rfl
  signBetween := rfl
  ends := rfl

theorem push_int_spelled (value : Int) : IsSpelled (.push .stack (.int value)) := by
  have cut := pushGap.tokens_int (Simple.text (.push .stack (.int value))) value [] rfl rfl
  cases value with
  | ofNat number => exact row_of_tokens cut rfl
  | negSucc below => exact row_of_tokens cut rfl

theorem push_literal_spelled (word : StackMachine.Word) :
    IsSpelled (.push .stack (literal word)) := by
  by_cases least : word = Int64.minValue
  · rw [least]
    exact fixed_lines.leastPushed
  · rw [literal, if_neg least]
    exact push_int_spelled word.toInt

def indexGap : SignedGap lexicon where
  before := "let i = ("
  after := ").rem_euclid(xs.len() as i64) as usize;"
  left := [.word .letWord, .word (.var .i), .symbol .assign, .symbol .openParen]
  right := [.symbol .closeParen, .symbol .dot, .word .remEuclid, .symbol .openParen,
    .word (.var .xs), .symbol .dot, .word .len, .symbol .openParen, .symbol .closeParen,
    .word .asWord, .word .i64Type, .symbol .closeParen, .word .asWord, .word .usizeType,
    .symbol .semicolon]
  leftTokens := by decide +kernel
  signTokens := by decide +kernel
  rightTokens := by decide +kernel
  between := rfl
  signBetween := rfl
  ends := rfl

/-- In parentheses the sign of a literal belongs to the receiver. -/
theorem bind_typed_spelled (value : Int) :
    IsSpelled (.bind .i (cyclicIndex (.group (.typedInt value)))) := by
  have cut := indexGap.tokens_int
    (Simple.text (.bind .i (cyclicIndex (.group (.typedInt value))))) value typeMark rfl
    (by simp only [Simple.text, cyclicIndex, Expr.text, List.append_assoc]; rfl)
  cases value with
  | ofNat number => exact row_of_tokens cut rfl
  | negSucc below => exact row_of_tokens cut rfl

theorem bind_index_spelled (index : StackMachine.Word) :
    IsSpelled (.bind .i (cyclicIndex (receiver index))) := by
  by_cases least : index = Int64.minValue
  · rw [least]
    exact fixed_lines.leastBound
  · rw [receiver, if_neg least]
    exact bind_typed_spelled index.toInt

def elementGap : Gap lexicon where
  before := "stack.push(xs["
  after := "]);"
  left := [.word (.var .stack), .symbol .dot, .word .push, .symbol .openParen, .word (.var .xs),
    .symbol .openBracket]
  right := [.symbol .closeBracket, .symbol .closeParen, .symbol .semicolon]
  leftTokens := by decide +kernel
  rightTokens := by decide +kernel
  between := rfl
  ends := rfl

theorem push_direct_spelled (index : Nat) :
    IsSpelled (.push .stack (.element .xs (.int index))) := by
  have cut := elementGap.tokens_literal (Simple.text (.push .stack (.element .xs (.int index))))
    index [] rfl (by simp only [Simple.text, Expr.text, List.append_assoc]; rfl)
  exact row_of_tokens cut rfl

def boundGap : Gap lexicon where
  before := "if xs.len() <= "
  after := " \x7b"
  left := [.word .ifWord, .word (.var .xs), .symbol .dot, .word .len, .symbol .openParen,
    .symbol .closeParen, .symbol .le]
  right := [.symbol .openBrace]
  leftTokens := by decide +kernel
  rightTokens := by decide +kernel
  between := rfl
  ends := rfl

theorem index_tested (index : Nat) : IsTested (.compare .le (.length .xs) (.int index)) := by
  have cut := boundGap.tokens_literal (ifLine (.compare .le (.length .xs) (.int index))) index []
    rfl (by simp only [ifLine, Expr.text, Relation.text, List.append_assoc]; rfl)
  exact row_of_tokens cut rfl

def loopText (program : Program) : Text := "while " ++ (loopTest program).text ++ " \x7b"

def loopGap : SignedGap lexicon where
  before := "while steps < "
  after := " \x7b"
  left := [.word .whileWord, .word (.var .steps), .symbol .lt]
  right := [.symbol .openBrace]
  leftTokens := by decide +kernel
  signTokens := by decide +kernel
  rightTokens := by decide +kernel
  between := between_budget
  signBetween := between_budget_sign
  ends := rfl

theorem loop_row (program : Program) :
    row? (loopText program) = some [.event (.loop (loopTest program))] := by
  have cut := loopGap.tokens_int (loopText program) program.maxSteps.toInt [] rfl rfl
  rw [loopText, loopTest] at cut ⊢
  generalize program.maxSteps.toInt = budget at cut ⊢
  cases budget with
  | ofNat number => exact row_of_tokens cut rfl
  | negSucc below => exact row_of_tokens cut rfl

def armGap : Gap lexicon where
  before := []
  after := " => \x7b"
  left := []
  right := [.symbol .fatArrow, .symbol .openBrace]
  leftTokens := rfl
  rightTokens := by decide +kernel
  between := rfl
  ends := rfl

theorem arm_row (position : Nat) :
    row? (Decimal.ofInt position ++ " => \x7b") = some [.arm position] := by
  have cut := armGap.tokens_literal (Decimal.ofInt position ++ " => \x7b") position [] rfl rfl
  exact row_of_tokens cut rfl

def headText (name : Text) : Text := "fn " ++ name ++ "(xs: &[i64]) -> (i64, i64) \x7b"

theorem valid_is_no_keyword (name : Text) (valid : Language.isFunctionName .rust name = true) :
    keywords.contains name = false := by
  simp only [Language.isFunctionName, Bool.and_eq_true, Bool.not_eq_true', List.contains_eq_mem,
    decide_eq_false_iff_not] at valid ⊢
  have refused : ∀ word ∈ keywords, word ∈ Language.reserved .rust ++ bodyNames := by
    decide +kernel
  intro member
  rcases List.mem_append.mp (refused name member) with reserved | body
  · exact valid.2 reserved
  · exact valid.1.2 body

def headGap : Gap lexicon where
  before := "fn "
  after := "(xs: &[i64]) -> (i64, i64) \x7b"
  left := [.word .fnWord]
  right := [.symbol .openParen, .word (.var .xs), .symbol .colon, .symbol .ampersand,
    .symbol .openBracket, .word .i64Type, .symbol .closeBracket, .symbol .closeParen,
    .symbol .arrow, .symbol .openParen, .word .i64Type, .symbol .comma, .word .i64Type,
    .symbol .closeParen, .symbol .openBrace]
  leftTokens := by decide +kernel
  rightTokens := by decide +kernel
  between := rfl
  ends := rfl

theorem head_row (name : Text) (valid : Language.isFunctionName .rust name = true) :
    row? (headText name) = some [.event (.define ⟨name, .xs⟩)] := by
  have noKeyword := valid_is_no_keyword name valid
  simp only [Language.isFunctionName, Bool.and_eq_true] at valid
  have cut := headGap.tokens_name name valid.1.1
  rw [← List.append_assoc] at cut
  refine row_of_tokens cut ?_
  have named : (lexicon.word name).text = name := Word.text_of_text name
  simp only [headGap, line?, List.cons_append, List.nil_append, named, noKeyword,
    Bool.false_eq_true, if_false]

def IsLegible : Stmt → Prop
  | .simple stmt => IsSpelled stmt
  | .ifThen test body => IsTested test ∧ ∀ stmt ∈ body, IsSpelled stmt
  | .ifElse test body other =>
      IsTested test ∧ (∀ stmt ∈ body, IsSpelled stmt) ∧ other ≠ [] ∧
        ∀ stmt ∈ other, IsSpelled stmt

def rowCode : List Simple → Code Statement Expr Head
  | [] => .done
  | stmt :: rest => .simple (.plain stmt) (rowCode rest)

def code : List Stmt → Code Statement Expr Head
  | [] => .done
  | .simple stmt :: rest => .simple (.plain stmt) (code rest)
  | .ifThen test body :: rest => .branch test (rowCode body) .done (code rest)
  | .ifElse test body other :: rest => .branch test (rowCode body) (rowCode other) (code rest)

theorem denotes_row (stmts : List Simple) (spelled : ∀ stmt ∈ stmts, IsSpelled stmt) :
    Denotes (Simple.edits stmts) (rowCode stmts).events := by
  induction stmts with
  | nil => exact denotes_nil
  | cons stmt stmts ih =>
      have first := denotes_simple (spelled stmt (by simp))
      have rest := ih fun other member => spelled other (List.mem_cons_of_mem _ member)
      exact denotes_append first rest

theorem row_code_as_other {stmts : List Simple} (nonempty : stmts ≠ []) :
    (rowCode stmts).eventsAs true = .otherwise :: (rowCode stmts).events ++ [.close] := by
  cases stmts with
  | nil => exact absurd rfl nonempty
  | cons stmt stmts => rfl

theorem denotes_code (stmts : List Stmt) (legible : ∀ stmt ∈ stmts, IsLegible stmt) :
    Denotes (stmts.flatMap Stmt.edits) (code stmts).events := by
  induction stmts with
  | nil => exact denotes_nil
  | cons stmt stmts ih =>
      have rest := ih fun other member => legible other (List.mem_cons_of_mem _ member)
      have first := legible stmt (by simp)
      rw [List.flatMap_cons]
      cases stmt with
      | simple stmt => exact denotes_append (denotes_simple first) rest
      | ifThen test body =>
          obtain ⟨tested, spelled⟩ := first
          have taken := denotes_block tested rfl (denotes_row body spelled)
          simpa [code, events_branch, Code.eventsAs, Stmt.edits] using denotes_append taken rest
      | ifElse test body other =>
          obtain ⟨tested, spelled, otherNonempty, otherSpelled⟩ := first
          have both := denotes_two_blocks tested fixed_lines.otherwise rfl rfl (denotes_row body spelled)
            (denotes_row other otherSpelled)
          simpa [code, events_branch, row_code_as_other otherNonempty, Stmt.edits]
            using denotes_append both rest

theorem if_fail_legible (test : Expr) (status : Status) (tested : IsTested test) :
    IsLegible (.ifThen test [fail status]) :=
  ⟨tested, by simpa using fixed_lines.failed status⟩

theorem require_depth_legible (depth : Nat) (depthIs : depth = 1 ∨ depth = 2) :
    IsLegible (requireDepth depth) := by
  rcases depthIs with rfl | rfl
  · exact if_fail_legible _ _ fixed_lines.stackEmpty
  · exact if_fail_legible _ _ fixed_lines.stackShort

theorem halt_legible : ∀ stmt ∈ halt, IsLegible stmt := by
  have failed := if_fail_legible _ .emptyStackOnHalt fixed_lines.stackEmpty
  have answered : IsLegible (.simple (.answer .ok top)) := fixed_lines.answered
  simpa [halt] using ⟨failed, answered⟩

section

variable {next : Nat}

theorem load_input_legible (goesOn : IsLegible (.simple (setPc next))) (index : StackMachine.Word)
    (mode : InputMode) : ∀ stmt ∈ loadInput index mode next, IsLegible stmt := by
  cases mode with
  | cyclic =>
      have failed := if_fail_legible _ .invalidInputIndex fixed_lines.inputsEmpty
      have bound : IsLegible (.simple (.bind .i (cyclicIndex (receiver index)))) :=
        bind_index_spelled index
      have pushed : IsLegible (.simple (.push .stack (.element .xs (.var .i)))) :=
        fixed_lines.inputPushed
      simpa [loadInput] using ⟨failed, bound, pushed, goesOn⟩
  | direct =>
      by_cases negative : index < 0
      · have failed : IsLegible (.simple (fail .invalidInputIndex)) := fixed_lines.failed _
        simpa [loadInput, negative] using failed
      · have above := Word.to_int_nonneg negative
        obtain ⟨position, positionIs⟩ := Int.eq_ofNat_of_zero_le above
        have tested := if_fail_legible _ .invalidInputIndex (index_tested position)
        have pushed : IsLegible (.simple (.push .stack (.element .xs (.int position)))) :=
          push_direct_spelled position
        simpa [loadInput, negative, positionIs] using ⟨tested, pushed, goesOn⟩

theorem binary_legible (goesOn : IsLegible (.simple (setPc next))) (op : BinaryOp) :
    ∀ stmt ∈ binary op next, IsLegible stmt := by
  have depth := require_depth_legible 2 (Or.inr rfl)
  have right : IsLegible (.simple (.bind .b pop)) := fixed_lines.popped .b (Or.inr (Or.inl rfl))
  have left : IsLegible (.simple (.bind .a pop)) := fixed_lines.popped .a (Or.inl rfl)
  have checked : ∀ stmt ∈ divisorCheck op, IsLegible stmt := by
    cases op with
    | div | mod => simpa [divisorCheck] using if_fail_legible _ _ fixed_lines.zeroDivisor
    | add | sub | mul | eq | gt | lt => simp [divisorCheck]
  have pushed : IsLegible (.simple (.push .stack (binaryValue op))) := fixed_lines.binaryPushed op
  simp only [binary, List.forall_mem_append]
  exact ⟨⟨by simpa using ⟨depth, right, left⟩, checked⟩, by simpa using ⟨pushed, goesOn⟩⟩

theorem unary_legible (goesOn : IsLegible (.simple (setPc next))) (op : UnaryOp) :
    ∀ stmt ∈ unary op next, IsLegible stmt := by
  have depth := require_depth_legible 1 (Or.inl rfl)
  have popped : IsLegible (.simple (.bind .a pop)) := fixed_lines.popped .a (Or.inl rfl)
  have pushed : IsLegible (.simple (.push .stack (unaryValue op))) := fixed_lines.unaryPushed op
  simpa [unary] using ⟨depth, popped, pushed, goesOn⟩

theorem stack_legible (goesOn : IsLegible (.simple (setPc next))) (op : StackOp) :
    ∀ stmt ∈ stack op next, IsLegible stmt := by
  have depth : IsLegible (requireDepth (Opcode.stack op).requiredDepth) :=
    require_depth_legible _ (Opcode.stack_depth op)
  have effect : ∀ stmt ∈ (stackEffect op).map Stmt.simple, IsLegible stmt := by
    intro stmt member
    obtain ⟨line, inEffect, rfl⟩ := List.mem_map.mp member
    exact fixed_lines.effects op line inEffect
  simp only [stack, List.forall_mem_append, List.forall_mem_cons]
  exact ⟨⟨depth, effect⟩, by simpa using goesOn⟩

theorem branch_legible (goesOn : IsLegible (.simple (setPc next))) (condition : Condition)
    (target : Option Int) (jumps : IsSpelled (jump target)) :
    ∀ stmt ∈ branch condition target next, IsLegible stmt := by
  have depth := require_depth_legible 1 (Or.inl rfl)
  have popped : IsLegible (.simple (.bind .c pop)) := fixed_lines.popped .c (Or.inr (Or.inr rfl))
  have tested := fixed_lines.conditions condition
  cases target with
  | none =>
      have taken : IsLegible (.ifThen (conditionTest condition) [jump none]) :=
        ⟨tested, by simpa using jumps⟩
      simpa [branch, Opcode.requiredDepth] using ⟨depth, popped, taken, goesOn⟩
  | some position =>
      have untaken : ∀ stmt ∈ [setPc next], IsSpelled stmt := by
        intro stmt member
        rw [List.mem_singleton.mp member]
        exact goesOn
      have both : IsLegible (.ifElse (conditionTest condition) [jump (some position)]
          [setPc next]) :=
        ⟨tested, by simpa using jumps, by simp, untaken⟩
      simpa [branch, Opcode.requiredDepth] using ⟨depth, popped, both⟩

end

theorem jump_spelled (program : Program) (target : StackMachine.Word) :
    IsSpelled (jump ((program.jumpMode.resolve? program.length target).map
      fun position => (position : Int))) := by
  cases program.jumpMode.resolve? program.length target with
  | none => exact fixed_lines.failed _
  | some position => exact set_pc_spelled position

theorem body_legible (program : Program) (pc : Nat) (instr : Instr) :
    ∀ stmt ∈ (body (.ofInstr program pc instr)).1, IsLegible stmt := by
  have goesOn : IsLegible (.simple (setPc (pc + 1))) := set_pc_spelled (pc + 1)
  cases instr with
  | halt => exact halt_legible
  | pushConst value =>
      have pushed : IsLegible (.simple (.push .stack (literal value))) := push_literal_spelled value
      simpa [Action.ofInstr, body] using ⟨pushed, goesOn⟩
  | loadInput index => exact load_input_legible goesOn index program.inputMode
  | binary op => exact binary_legible goesOn op
  | unary op => exact unary_legible goesOn op
  | stack op => exact stack_legible goesOn op
  | jump target =>
      have jumps : IsLegible (.simple _) := jump_spelled program target
      simpa [Action.ofInstr, body] using jumps
  | branch condition target =>
      exact branch_legible goesOn condition _ (jump_spelled program target)

def armCode (program : Program) (pc : Nat) (instr : Instr) : Code Statement Expr Head :=
  .simple (.plain (.increment .steps)) (code (body (.ofInstr program pc instr)).1)

def armsFrom (program : Program) (pc : Nat) (instrs : List Instr) : Code Statement Expr Head :=
  armChain (armTest .pc) (armCode program) (code halt) pc instrs

def loopCode (program : Program) : Code Statement Expr Head :=
  .loop (loopTest program) (armsFrom program 0 program.code)
    (.simple (.plain (fail .stepLimit)) .done)

def functionCode (program : Program) : Code Statement Expr Head :=
  .simple (.initial (.emptyVec .stack)) (.simple (.initial (.usize .pc 0))
    (.simple (.initial (.i64 .steps 0)) (loopCode program)))

def programCode (name : Text) (program : Program) : Code Statement Expr Head :=
  .define ⟨name, .xs⟩ (functionCode program) .done

def otherEdits : List Edit :=
  .line "_ => \x7b" :: (Edit.nested (halt.flatMap Stmt.edits) ++ [closeLine])

theorem denotes_arms (program : Program) (pc : Nat) (instrs : List Instr)
    (begun : pc = 0 → instrs ≠ []) :
    DenotesArms (pc != 0) (target.armEdits program pc instrs ++ otherEdits)
      ((armsFrom program pc instrs).eventsAs (pc != 0)) := by
  induction instrs generalizing pc with
  | nil =>
      have later : (pc != 0) = true := by simpa using begun
      have other := denotes_other_arm fixed_lines.otherArm (denotes_code halt halt_legible)
      rw [later]
      exact other
  | cons instr instrs ih =>
      have counted := denotes_simple fixed_lines.counted
      have acted := denotes_code _ (body_legible program pc instr)
      have rest := ih (pc + 1) (by simp)
      have later : (pc + 1 != 0) = true := by simp
      rw [later] at rest
      have whole := denotes_arm (pc != 0) pc (arm_row pc) (denotes_append counted acted) rest
      simpa [Target.armEdits, target, arm, Edit.nested, armsFrom, armChain, armCode, Code.eventsAs,
        Code.events, Code.inBlock, armEvent] using whole

def loopEdits (program : Program) : List Edit :=
  .line (loopText program) ::
    (Edit.nested (.line "match pc \x7b" ::
      (Edit.nested (target.armEdits program 0 program.code ++ otherEdits) ++ [closeLine])) ++
      [closeLine])

theorem denotes_loop (program : Program) :
    Denotes (loopEdits program)
      (.loop (loopTest program) :: ((armsFrom program 0 program.code).events ++ [.close])) := by
  have nonempty : program.code ≠ [] := List.ne_nil_of_mem program.halts
  have arms := denotes_arms program 0 program.code fun _ => nonempty
  exact denotes_block (loop_row program) rfl (denotes_match fixed_lines.matchLine arms)

def declarationEdits : List Edit := locals.map fun declaration => .line declaration.text

theorem denotes_declarations :
    Denotes declarationEdits [.simple (.initial (.emptyVec .stack)),
      .simple (.initial (.usize .pc 0)), .simple (.initial (.i64 .steps 0))] := by
  have stackLine : Denotes [.line (Declaration.emptyVec .stack).text]
      [.simple (.initial (.emptyVec .stack))] :=
    denotes_simple (fixed_lines.declarations _ (by simp [locals]))
  have pcLine : Denotes [.line (Declaration.usize .pc 0).text]
      [.simple (.initial (.usize .pc 0))] :=
    denotes_simple (fixed_lines.declarations _ (by simp [locals]))
  have stepsLine : Denotes [.line (Declaration.i64 .steps 0).text]
      [.simple (.initial (.i64 .steps 0))] :=
    denotes_simple (fixed_lines.declarations _ (by simp [locals]))
  exact denotes_append stackLine (denotes_append pcLine stepsLine)

theorem source_edits (name : Text) (program : Program) :
    Language.rust.target.source name program =
      .line "#[allow(unused_mut, unused_assignments, unused_variables, unreachable_code)]" ::
        .line (headText name) ::
        (Edit.nested (declarationEdits ++ loopEdits program ++
          [.line (pair .stepLimit (.int 0))]) ++ [closeLine]) := by
  simp [Target.source, Language.target, target, opening, closing, headText, loopText, loopEdits,
    declarationEdits, otherEdits, Edit.nested, body]

theorem read_rendered (name : Text) (program : Program)
    (valid : Language.isFunctionName .rust name = true) :
    read (Language.rust.render name program) = some (programCode name program) := by
  have body := denotes_append denotes_declarations (denotes_loop program)
  have reads := read_function fixed_lines.attributes (head_row name valid) fixed_lines.spent body
  have events : .define ⟨name, .xs⟩ ::
      ([.simple (.initial (.emptyVec .stack)), .simple (.initial (.usize .pc 0)),
        .simple (.initial (.i64 .steps 0))] ++
        .loop (loopTest program) :: ((armsFrom program 0 program.code).events ++ [.close]) ++
        [.simple (.plain (.answer .stepLimit (.int 0))), .close]) =
      (programCode name program).events := by
    simp [programCode, functionCode, loopCode, fail, Code.events, Code.eventsAs, Code.inBlock]
  rw [Language.render_source, source_edits, reads, events, assemble_events]

end StackMachine.Rust

import StackMachine.Proofs.Java.Reading
import StackMachine.Proofs.Render.Recover

/-!
# Java text determines the arms

A position past the greatest `int` literal is no Java, but the text still says which position it
is. A reader that lets such literals pass reads every rendered method, and from the code of an arm
its action is told by what is declared or stored after the checks.
-/

namespace StackMachine.Java

open StackMachine.Render StackMachine.Render.Java StackMachine.Source

set_option autoImplicit false

/-- Reads a row without asking whether its literals fit their types. -/
def looseRow? (text : Text) : Option (List Line) := (lexicon.tokens text).bind line?

theorem loose_of_tokens {text : Text} {tokens : Tokens} {lines : List Line}
    (cut : lexicon.tokens text = some tokens) (reads : line? tokens = some lines) :
    looseRow? text = some lines := by
  rw [looseRow?, cut, Option.bind_some, reads]

theorem loose_of_row {text : Text} {lines : List Line} (found : row? text = some lines) :
    looseRow? text = some lines := by
  obtain ⟨tokens, cut, fitting⟩ := Option.bind_eq_some_iff.mp found
  split at fitting
  · exact loose_of_tokens cut fitting
  · cases fitting

theorem reads_loose (length : Nat) : Reads looseRow? length where
  further := loose_of_row
  indented width text := by rw [looseRow?, looseRow?, ← lexicon.tokens_indented width text]; rfl
  clean text lines found := by
    obtain ⟨tokens, cut, -⟩ := Option.bind_eq_some_iff.mp found
    exact lexicon.tokens_no_newline text tokens cut
  position position _ :=
    loose_of_tokens (pcGap.tokens_literal (Simple.text (setPc position)) position [] rfl rfl) rfl
  arm position first _ := by
    cases first with
    | true =>
        exact loose_of_tokens
          (firstArmGap.tokens_literal (armText position true) position [] rfl rfl) rfl
    | false =>
        exact loose_of_tokens
          (laterArmGap.tokens_literal (armText position false) position [] rfl rfl) rfl

/-- The position that code stores when it does nothing else. -/
def next? : Code Statement Expr Head → Option Int
  | .simple (.plain (.assign .pc (.int next))) .done => some next
  | _ => none

/-- Where code jumps when it does nothing else. -/
def jump? : Code Statement Expr Head → Option (Option Int)
  | .simple (.plain (.answer .badJumpTarget _)) .done => some none
  | code => (next? code).map some

def pushed? : Code Statement Expr Head → Option (Expr × Int)
  | .branch _ _ _ (.simple (.plain (.store _ _ value)) rest) =>
      (next? rest).map fun next => (value, next)
  | _ => none

def binaryOp? (value : Expr) : Option BinaryOp :=
  [.add, .sub, .mul, .div, .mod, .eq, .gt, .lt].find? fun op => binaryValue op = value

def unaryOp? (value : Expr) : Option UnaryOp :=
  [.neg, .abs, .isZero].find? fun op => unaryValue op = value

def condition? (test : Expr) : Option Condition :=
  [.ifZero, .ifNonzero].find? fun condition => conditionTest condition = test

/-- The binary operation after its operands were taken, perhaps behind a check of the divisor. -/
def binaryAction? : Code Statement Expr Head → Option Action
  | .branch _ _ _ (.branch test taken untaken rest) =>
      (pushed? (.branch test taken untaken rest)).bind fun (value, next) =>
        (binaryOp? value).map fun op => .binary (.binary op) next
  | code =>
      (pushed? code).bind fun (value, next) =>
        (binaryOp? value).map fun op => .binary (.binary op) next

def branchAction? : Code Statement Expr Head → Option Action
  | .branch test taken .done rest =>
      (condition? test).bind fun condition =>
        (jump? taken).bind fun target => (next? rest).map (.branch (.branch condition) target)
  | .branch test taken untaken .done =>
      (condition? test).bind fun condition =>
        (jump? taken).bind fun target => (next? untaken).map (.branch (.branch condition) target)
  | _ => none

/-- One operand is declared for a unary operation and for a double; a double pushes the operand
itself. -/
def unaryAction? (code : Code Statement Expr Head) : Option Action :=
  (pushed? code).bind fun (value, next) =>
    if value = .var .a then some (.stack (.stack .dup) next)
    else (unaryOp? value).map fun op => .unary (.unary op) next

def checkedAction? : Code Statement Expr Head → Option Action
  | .simple (.plain (.answer .ok _)) .done => some .halt
  | .simple (.plain (.declare .b _)) (.simple (.plain (.declare .a _)) rest) => binaryAction? rest
  | .simple (.plain (.declare .a _)) rest => unaryAction? rest
  | .simple (.plain (.declare .c _)) rest => branchAction? rest
  | .simple (.plain (.declare .t _)) (.simple _ (.simple _ rest)) =>
      (next? rest).map (.stack (.stack .swap))
  | .simple (.plain (.decrement .sp)) rest => (next? rest).map (.stack (.stack .pop))
  | _ => none

/-- The word that is pushed, and the load from the inputs of which it is the value. -/
def loaded? (mode : InputMode) (code : Code Statement Expr Head) : Option Action :=
  (pushed? code).bind fun (value, next) =>
    match mode, value with
    | .cyclic, .element .xs (.toInt (.floorMod (.long index) _)) =>
        some (.loadInput index .cyclic next)
    | .direct, .element .xs (.toInt (.long index)) => some (.loadInput index .direct next)
    | _, _ => none

def action? : Code Statement Expr Head → Option Action
  | .simple (.plain (.answer .invalidInputIndex _)) .done => some (.loadInput (-1) .direct 0)
  | .simple stmt .done => (jump? (.simple stmt .done)).map .jump
  | .branch _ _ _ (.simple (.plain (.store _ _ (.long value))) rest) =>
      (next? rest).map (.pushConst value)
  | .branch (.compare .eq (.length .xs) _) _ _ rest => loaded? .cyclic rest
  | .branch (.compare .ge _ (.length .xs)) _ _ rest => loaded? .direct rest
  | .branch _ _ _ rest => checkedAction? rest
  | _ => none

def armAction? : Code Statement Expr Head → Option Action
  | .simple _ rest => action? rest
  | _ => none

theorem halt_ends_chain : EndsChain (code halt) := fun _ _ _ same => nomatch same

theorem recovers_load (index : StackMachine.Word) (mode : InputMode) (next : Int) :
    action? (code (loadInput index mode next)) =
      some (Action.loadInput index mode next).canonical := by
  cases mode with
  | cyclic => rfl
  | direct =>
      by_cases negative : index < 0
      · simp only [loadInput, Action.canonical, if_pos negative]
        rfl
      · simp only [loadInput, Action.canonical, if_neg negative]
        rfl

theorem recovers_branch (condition : Condition) (target : Option Int) (next : Int) :
    action? (code (branch condition target next)) =
      some (Action.branch (.branch condition) target next) := by
  cases condition <;> cases target <;> rfl

theorem recovers : Recovers armAction? armCode := by
  intro program pc instr
  cases instr with
  | halt | pushConst _ => rfl
  | loadInput index => exact recovers_load index program.inputMode (pc + 1)
  | binary op => cases op <;> rfl
  | unary op => cases op <;> rfl
  | stack op => cases op <;> rfl
  | jump target =>
      simp only [armCode, Action.ofInstr]
      cases program.jumpMode.resolve? program.length target <;> rfl
  | branch condition target => exact recovers_branch condition _ (pc + 1)

/-- Programs with the same text have the same budget and, up to what no text keeps, the same
arms. -/
theorem alike_of_text {s t : Program}
    (same : Language.java.render "f" s = Language.java.render "f" t) : Alike s t := by
  have valid : Language.isFunctionName .java "f" = true := by decide
  have code : programCode "f" s = programCode "f" t := by
    apply Option.some.inj
    rw [← read_by_rendered s (reads_loose s.length) "f" valid,
      ← read_by_rendered t (reads_loose t.length) "f" valid, same]
  simp only [programCode, methodCode, loopCode, loopTest, armsFrom, Code.define.injEq,
    Code.simple.injEq, Code.loop.injEq, Expr.compare.injEq, Expr.long.injEq, true_and,
    and_true] at code
  exact alike_of_chain recovers halt_ends_chain code.1 code.2

end StackMachine.Java

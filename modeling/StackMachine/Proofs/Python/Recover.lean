import StackMachine.Proofs.Python.Reading
import StackMachine.Proofs.Render.Recover

/-!
# Python text determines the arms

What an arm does is told by the first statement after the depth check that has not been seen in
another arm, and what it goes on with by its last statement.
-/

namespace StackMachine.Python

open StackMachine.Render StackMachine.Render.Python StackMachine.Source

set_option autoImplicit false

def next? : Code Simple Expr Head → Option Int
  | .simple (.assign .pc (.int next)) .done => some next
  | _ => none

def jump? : Code Simple Expr Head → Option (Option Int)
  | .simple (.answer .badJumpTarget _) .done => some none
  | code => (next? code).map some

def binaryOp? (value : Expr) : Option BinaryOp :=
  [.add, .sub, .mul, .div, .mod, .eq, .gt, .lt].find? fun op => binaryValue op = value

def unaryOp? (value : Expr) : Option UnaryOp :=
  [.neg, .abs, .isZero].find? fun op => unaryValue op = value

def stackOp? (effect : Simple) : Option StackOp :=
  [.dup, .swap, .pop].find? fun op => stackEffect op = effect

def condition? (test : Expr) : Option Condition :=
  [.ifZero, .ifNonzero].find? fun condition => conditionTest condition = test

def binaryAction? : Code Simple Expr Head → Option Action
  | .simple (.append _ value) rest
  | .branch _ _ _ (.simple (.append _ value) rest) =>
      (binaryOp? value).bind fun op => (next? rest).map (.binary (.binary op))
  | _ => none

def branchAction? : Code Simple Expr Head → Option Action
  | .branch test taken .done rest =>
      (condition? test).bind fun condition =>
        (jump? taken).bind fun target => (next? rest).map (.branch (.branch condition) target)
  | .branch test taken untaken .done =>
      (condition? test).bind fun condition =>
        (jump? taken).bind fun target => (next? untaken).map (.branch (.branch condition) target)
  | _ => none

def checkedAction? : Code Simple Expr Head → Option Action
  | .simple (.answer .ok _) .done => some .halt
  | .simple (.assign .b _) (.simple (.assign .a _) rest) => binaryAction? rest
  | .simple (.assign .a _) (.simple (.append _ value) rest) =>
      (unaryOp? value).bind fun op => (next? rest).map (.unary (.unary op))
  | .simple (.assign .c _) rest => branchAction? rest
  | .simple effect rest =>
      (stackOp? effect).bind fun op => (next? rest).map (.stack (.stack op))
  | _ => none

def action? : Code Simple Expr Head → Option Action
  | .simple (.append _ (.int value)) rest => (next? rest).map (.pushConst (Int64.ofInt value))
  | .simple (.answer .invalidInputIndex _) .done => some (.loadInput (-1) .direct 0)
  | .simple stmt .done => (jump? (.simple stmt .done)).map .jump
  | .branch (.isEmpty .xs) _ _ (.simple (.append _ (.element _ (.arith _ (.int index) _))) rest) =>
      (next? rest).map (.loadInput (Int64.ofInt index) .cyclic)
  | .branch (.compare .ge (.int index) _) _ _ (.simple _ rest) =>
      (next? rest).map (.loadInput (Int64.ofInt index) .direct)
  | .branch _ _ _ rest => checkedAction? rest
  | _ => none

def armAction? : Code Simple Expr Head → Option Action
  | .simple _ rest => action? rest
  | _ => none

theorem halt_ends_chain : EndsChain (code halt) := fun _ _ _ same => nomatch same

theorem recovers_load (index : StackMachine.Word) (mode : InputMode) (next : Int) :
    action? (code (loadInput index mode next)) =
      some (Action.loadInput index mode next).canonical := by
  have word : Int64.ofInt index.toInt = index := Int64.ofInt_toInt index
  cases mode with
  | cyclic =>
      change some (Action.loadInput (Int64.ofInt index.toInt) .cyclic next) = _
      rw [word]
      rfl
  | direct =>
      by_cases negative : index < 0
      · simp only [loadInput, Action.canonical, if_pos negative]
        rfl
      · simp only [loadInput, Action.canonical, if_neg negative]
        change some (Action.loadInput (Int64.ofInt index.toInt) .direct next) = _
        rw [word]

theorem recovers_branch (condition : Condition) (target : Option Int) (next : Int) :
    action? (code (branch condition target next)) =
      some (Action.branch (.branch condition) target next) := by
  cases condition <;> cases target <;> rfl

theorem recovers : Recovers armAction? armCode := by
  intro program pc instr
  cases instr with
  | halt => rfl
  | pushConst value =>
      have word : Int64.ofInt value.toInt = value := Int64.ofInt_toInt value
      change some (Action.pushConst (Int64.ofInt value.toInt) (pc + 1)) = _
      rw [word]
      rfl
  | loadInput index => exact recovers_load index program.inputMode (pc + 1)
  | binary op => cases op <;> rfl
  | unary op => cases op <;> rfl
  | stack op => cases op <;> rfl
  | jump target =>
      simp only [armCode, Action.ofInstr]
      cases program.jumpMode.resolve? program.length target <;> rfl
  | branch condition target => exact recovers_branch condition _ (pc + 1)

theorem alike_of_text {s t : Program}
    (same : Language.python.render "f" s = Language.python.render "f" t) : Alike s t := by
  have valid : Language.isFunctionName .python "f" = true := by decide
  have plain : Text.ascii "f" ≠ debugConstant := by decide
  have code : programCode "f" s = programCode "f" t := by
    apply Option.some.inj
    rw [← read_rendered "f" s valid plain, ← read_rendered "f" t valid plain, same]
  simp only [programCode, functionCode, helperCode, localsCode, loopCode, loopTest, armsFrom,
    Code.define.injEq, Code.simple.injEq, Code.loop.injEq, Expr.compare.injEq, Expr.int.injEq,
    true_and, and_true] at code
  exact alike_of_chain recovers halt_ends_chain (Int64.toInt.inj code.1) code.2

end StackMachine.Python

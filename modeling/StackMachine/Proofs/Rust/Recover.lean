import StackMachine.Proofs.Rust.Reading
import StackMachine.Proofs.Render.Recover

/-!
# Rust text determines the arms

What an arm does is told by the first statement after the depth check that has not been seen in
another arm, and what it goes on with by its last statement.
-/

namespace StackMachine.Rust

open StackMachine.Render StackMachine.Render.Rust StackMachine.Source

set_option autoImplicit false

/-- The position that code stores when it does nothing else. -/
def next? : Code Statement Expr Head → Option Int
  | .simple (.plain (.assign .pc (.int next))) .done => some next
  | _ => none

def jump? : Code Statement Expr Head → Option (Option Int)
  | .simple (.plain (.answer .badJumpTarget _)) .done => some none
  | code => (next? code).map some

/-- The word of a literal, spelled with or without its type. -/
def word? : Expr → Option StackMachine.Word
  | .int value | .group (.typedInt value) => some (Int64.ofInt value)
  | .minimum => some Int64.minValue
  | _ => none

def binaryOp? (value : Expr) : Option BinaryOp :=
  [.add, .sub, .mul, .div, .mod, .eq, .gt, .lt].find? fun op => binaryValue op = value

def unaryOp? (value : Expr) : Option UnaryOp :=
  [.neg, .abs, .isZero].find? fun op => unaryValue op = value

def condition? (test : Expr) : Option Condition :=
  [.ifZero, .ifNonzero].find? fun condition => conditionTest condition = test

def binaryAction? : Code Statement Expr Head → Option Action
  | .simple (.plain (.push _ value)) rest
  | .branch _ _ _ (.simple (.plain (.push _ value)) rest) =>
      (binaryOp? value).bind fun op => (next? rest).map (.binary (.binary op))
  | _ => none

def branchAction? : Code Statement Expr Head → Option Action
  | .branch test taken .done rest =>
      (condition? test).bind fun condition =>
        (jump? taken).bind fun target => (next? rest).map (.branch (.branch condition) target)
  | .branch test taken untaken .done =>
      (condition? test).bind fun condition =>
        (jump? taken).bind fun target => (next? untaken).map (.branch (.branch condition) target)
  | _ => none

/-- The action after a check. Taking one operand begins the negation of it as well as its double,
and only a negation pushes something else than the operand. -/
def checkedAction? : Code Statement Expr Head → Option Action
  | .simple (.plain (.answer .ok _)) .done => some .halt
  | .simple (.plain (.bind .b _)) (.simple (.plain (.bind .a _)) rest) => binaryAction? rest
  | .simple (.plain (.bind .a _)) (.simple (.plain (.push _ (.var .a))) rest) =>
      (next? rest).map (.stack (.stack .dup))
  | .simple (.plain (.bind .a _)) (.simple (.plain (.push _ value)) rest) =>
      (unaryOp? value).bind fun op => (next? rest).map (.unary (.unary op))
  | .simple (.plain (.bind .c _)) rest => branchAction? rest
  | .simple (.plain (.bind .n _)) (.simple _ rest) => (next? rest).map (.stack (.stack .swap))
  | .simple (.plain (.discard _)) rest => (next? rest).map (.stack (.stack .pop))
  | _ => none

def action? : Code Statement Expr Head → Option Action
  | .simple (.plain (.push _ value)) rest =>
      (word? value).bind fun value => (next? rest).map (.pushConst value)
  | .simple (.plain (.answer .invalidInputIndex _)) .done => some (.loadInput (-1) .direct 0)
  | .simple stmt .done => (jump? (.simple stmt .done)).map .jump
  | .branch (.isEmpty .xs) _ _
      (.simple (.plain (.bind .i (.toUsize (.remEuclid index _)))) (.simple _ rest)) =>
      (word? index).bind fun index => (next? rest).map (.loadInput index .cyclic)
  | .branch (.compare .le (.length _) (.int index)) _ _ (.simple _ rest) =>
      (next? rest).map (.loadInput (Int64.ofInt index) .direct)
  | .branch _ _ _ rest => checkedAction? rest
  | _ => none

def armAction? : Code Statement Expr Head → Option Action
  | .simple _ rest => action? rest
  | _ => none

theorem word_of_literal (value : StackMachine.Word) : word? (literal value) = some value := by
  by_cases least : value = Int64.minValue
  · rw [literal, if_pos least, least]
    rfl
  · rw [literal, if_neg least]
    exact congrArg some (Int64.ofInt_toInt value)

theorem word_of_receiver (value : StackMachine.Word) : word? (receiver value) = some value := by
  by_cases least : value = Int64.minValue
  · rw [receiver, if_pos least, least]
    rfl
  · rw [receiver, if_neg least]
    exact congrArg some (Int64.ofInt_toInt value)

theorem halt_ends_chain : EndsChain (code halt) := fun _ _ _ same => nomatch same

theorem recovers_load (index : StackMachine.Word) (mode : InputMode) (next : Int) :
    action? (code (loadInput index mode next)) =
      some (Action.loadInput index mode next).canonical := by
  cases mode with
  | cyclic =>
      change ((word? (receiver index)).bind fun index =>
        some (Action.loadInput index .cyclic next)) = _
      rw [word_of_receiver]
      rfl
  | direct =>
      by_cases negative : index < 0
      · simp only [loadInput, Action.canonical, if_pos negative]
        rfl
      · have word : Int64.ofInt index.toInt = index := Int64.ofInt_toInt index
        simp only [loadInput, Action.canonical, if_neg negative]
        change some (Action.loadInput (Int64.ofInt index.toInt) .direct next) = _
        rw [word]

theorem recovers_branch (condition : Condition) (target : Option Int) (next : Int) :
    action? (code (branch condition target next)) =
      some (Action.branch (.branch condition) target next) := by
  cases condition <;> cases target <;> rfl

theorem recovers : Recovers armAction? armCode := by
  intro program pc instr
  cases instr with
  | halt => rfl
  | pushConst value =>
      change ((word? (literal value)).bind fun value =>
        some (Action.pushConst value (pc + 1))) = _
      rw [word_of_literal]
      rfl
  | loadInput index => exact recovers_load index program.inputMode (pc + 1)
  | binary op => cases op <;> rfl
  | unary op => cases op <;> rfl
  | stack op => cases op <;> rfl
  | jump target =>
      simp only [armCode, Action.ofInstr]
      cases program.jumpMode.resolve? program.length target <;> rfl
  | branch condition target => exact recovers_branch condition _ (pc + 1)

theorem alike_of_text {s t : Program}
    (same : Language.rust.render "f" s = Language.rust.render "f" t) : Alike s t := by
  have valid : Language.isFunctionName .rust "f" = true := by decide
  have code : programCode "f" s = programCode "f" t := by
    apply Option.some.inj
    rw [← read_rendered "f" s valid, ← read_rendered "f" t valid, same]
  simp only [programCode, functionCode, loopCode, loopTest, armsFrom, Code.define.injEq,
    Code.simple.injEq, Code.loop.injEq, Expr.compare.injEq, Expr.int.injEq, true_and,
    and_true] at code
  exact alike_of_chain recovers halt_ends_chain (Int64.toInt.inj code.1) code.2

end StackMachine.Rust

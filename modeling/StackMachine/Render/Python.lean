import StackMachine.Render.Target

/-!
Python as a target. The rendered function keeps the operand stack in a list, wraps every result to
64 bits with a helper, and divides towards zero with another; an arm is a branch on `pc`.
-/

namespace StackMachine.Render.Python

set_option autoImplicit false

inductive Var where
  | xs | stack | pc | steps | a | b | c | v | q
deriving DecidableEq, Repr

def Var.text : Var → Text
  | .xs => "xs"
  | .stack => "stack"
  | .pc => "pc"
  | .steps => "steps"
  | .a => "a"
  | .b => "b"
  | .c => "c"
  | .v => "v"
  | .q => "q"

inductive Operator where
  | add | sub | mul | floorDiv | mod
deriving DecidableEq, Repr

def Operator.text : Operator → Text
  | .add => " + "
  | .sub => " - "
  | .mul => " * "
  | .floorDiv => " // "
  | .mod => " % "

inductive Relation where
  | eq | ne | lt | gt | ge
deriving DecidableEq, Repr

def Relation.text : Relation → Text
  | .eq => " == "
  | .ne => " != "
  | .lt => " < "
  | .gt => " > "
  | .ge => " >= "

inductive Expr where
  | var (name : Var)
  | true
  | int (value : Int)
  | hex (value : Nat)
  | neg (operand : Expr)
  | abs (operand : Expr)
  | wrap (operand : Expr)
  | truncDiv (left right : Expr)
  | arith (operator : Operator) (left right : Expr)
  | compare (relation : Relation) (left right : Expr)
  | isEmpty (list : Var)
  | length (list : Var)
  | element (list : Var) (index : Expr)
  /-- Takes the last element off a list. -/
  | removeLast (list : Var)
  | conditional (value test other : Expr)
  | group (inner : Expr)
deriving DecidableEq, Repr

/-- Hexadecimal digits in capitals. -/
def hexadecimal (value : Nat) : Text :=
  "0x" ++ (Nat.toDigits 16 value).map fun char => char.toUpper.toNat.toUInt8

def Expr.text : Expr → Text
  | .var name => name.text
  | .true => "True"
  | .int value => Decimal.ofInt value
  | .hex value => hexadecimal value
  | .neg operand => "-" ++ operand.text
  | .abs operand => "abs(" ++ operand.text ++ ")"
  | .wrap operand => "_wrap(" ++ operand.text ++ ")"
  | .truncDiv left right => "_tdiv(" ++ left.text ++ ", " ++ right.text ++ ")"
  | .arith operator left right => left.text ++ operator.text ++ right.text
  | .compare relation left right => left.text ++ relation.text ++ right.text
  | .isEmpty list => "not " ++ list.text
  | .length list => "len(" ++ list.text ++ ")"
  | .element list index => list.text ++ "[" ++ index.text ++ "]"
  | .removeLast list => list.text ++ ".pop()"
  | .conditional value test other => value.text ++ " if " ++ test.text ++ " else " ++ other.text
  | .group inner => "(" ++ inner.text ++ ")"

/-- A statement of one line. -/
inductive Simple where
  | assign (name : Var) (value : Expr)
  | emptyList (name : Var)
  | increment (name : Var)
  /-- Keeps the bits that the value has. -/
  | mask (name : Var) (bits : Expr)
  | append (list : Var) (value : Expr)
  | discard (value : Expr)
  /-- Exchanges two elements of a list. -/
  | exchange (list : Var) (first second : Expr)
  | ret (value : Expr)
  | answer (status : Status) (value : Expr)
deriving DecidableEq, Repr

def Simple.text : Simple → Text
  | .assign name value => name.text ++ " = " ++ value.text
  | .emptyList name => name.text ++ ": list[int] = []"
  | .increment name => name.text ++ " += 1"
  | .mask name bits => name.text ++ " &= " ++ bits.text
  | .append list value => list.text ++ ".append(" ++ value.text ++ ")"
  | .discard value => value.text
  | .exchange list first second =>
      let left := (Expr.element list first).text
      let right := (Expr.element list second).text
      left ++ ", " ++ right ++ " = " ++ right ++ ", " ++ left
  | .ret value => "return " ++ value.text
  | .answer status value => "return (" ++ Decimal.ofNat status.code ++ ", " ++ value.text ++ ")"

inductive Stmt where
  | simple (stmt : Simple)
  | ifThen (test : Expr) (body : List Simple)
  | ifElse (test : Expr) (body other : List Simple)
deriving DecidableEq, Repr

def Simple.edits (body : List Simple) : List Edit := body.map fun stmt => .line stmt.text

def Stmt.edits : Stmt → List Edit
  | .simple stmt => [.line stmt.text]
  | .ifThen test body => .line ("if " ++ test.text ++ ":") :: Edit.nested (Simple.edits body)
  | .ifElse test body other =>
      .line ("if " ++ test.text ++ ":") :: Edit.nested (Simple.edits body) ++
        .line "else:" :: Edit.nested (Simple.edits other)

/-- A function inside the rendered one. -/
structure Helper where
  name : Text
  parameters : List Var
  body : List Simple
deriving DecidableEq, Repr

def Helper.edits (helper : Helper) : List Edit :=
  let parameters : List Text := helper.parameters.map fun parameter => parameter.text ++ ": int"
  .line ("def " ++ helper.name ++ "(" ++ Text.join ", " parameters ++ ") -> int:") ::
    Edit.nested (Simple.edits helper.body) ++ [.blank]

/-- Reduces an integer to the word with the same 64 low bits. -/
def wrapHelper : Helper where
  name := "_wrap"
  parameters := [.v]
  body :=
    [.mask .v (.hex 0xFFFFFFFFFFFFFFFF),
      .ret (.conditional (.arith .sub (.var .v) (.hex 0x10000000000000000))
        (.compare .ge (.var .v) (.hex 0x8000000000000000)) (.var .v))]

/-- Divides towards zero by dividing the absolute values. -/
def truncDivHelper : Helper where
  name := "_tdiv"
  parameters := [.a, .b]
  body :=
    [.assign .q (.arith .floorDiv (.abs (.var .a)) (.abs (.var .b))),
      .ret (.conditional (.neg (.var .q))
        (.compare .ne (.group (.compare .lt (.var .a) (.int 0)))
          (.group (.compare .lt (.var .b) (.int 0))))
        (.var .q))]

def locals : List Simple := [.emptyList .stack, .assign .pc (.int 0), .assign .steps (.int 0)]

def fail (status : Status) : Simple := .answer status (.int 0)

def setPc (position : Int) : Simple := .assign .pc (.int position)

def requireDepth (depth : Nat) : Stmt :=
  let shallow : Expr :=
    if depth = 1 then .isEmpty .stack else .compare .lt (.length .stack) (.int depth)
  .ifThen shallow [fail .stackUnderflow]

def last : Expr := .int (-1)

def secondLast : Expr := .int (-2)

def halt : List Stmt :=
  [.ifThen (.isEmpty .stack) [fail .emptyStackOnHalt],
    .simple (.answer .ok (.element .stack last))]

/-- A negative direct index is out of range whatever the inputs are. -/
def loadInput (index : Word) (mode : InputMode) (next : Int) : List Stmt :=
  let position : Expr := .int index.toInt
  match mode with
  | .cyclic =>
      [.ifThen (.isEmpty .xs) [fail .invalidInputIndex],
        .simple (.append .stack (.element .xs (.arith .mod position (.length .xs)))),
        .simple (setPc next)]
  | .direct =>
      if index < 0 then [.simple (fail .invalidInputIndex)]
      else
        [.ifThen (.compare .ge position (.length .xs)) [fail .invalidInputIndex],
          .simple (.append .stack (.element .xs position)), .simple (setPc next)]

/-- One when the test holds, else zero. -/
def flag (test : Expr) : Expr := .conditional (.int 1) test (.int 0)

def binaryValue : BinaryOp → Expr
  | .add => .wrap (.arith .add (.var .a) (.var .b))
  | .sub => .wrap (.arith .sub (.var .a) (.var .b))
  | .mul => .wrap (.arith .mul (.var .a) (.var .b))
  | .div => .wrap (.truncDiv (.var .a) (.var .b))
  | .mod =>
      .wrap (.arith .sub (.var .a) (.arith .mul (.truncDiv (.var .a) (.var .b)) (.var .b)))
  | .eq => flag (.compare .eq (.var .a) (.var .b))
  | .gt => flag (.compare .gt (.var .a) (.var .b))
  | .lt => flag (.compare .lt (.var .a) (.var .b))

/-- A division first answers for a zero divisor. -/
def divisorCheck : BinaryOp → List Stmt
  | .div | .mod => [.ifThen (.compare .eq (.var .b) (.int 0)) [fail .divOrModByZero]]
  | .add | .sub | .mul | .eq | .gt | .lt => []

def binary (op : BinaryOp) (next : Int) : List Stmt :=
  [requireDepth (Opcode.binary op).requiredDepth, .simple (.assign .b (.removeLast .stack)),
    .simple (.assign .a (.removeLast .stack))] ++ divisorCheck op ++
    [.simple (.append .stack (binaryValue op)), .simple (setPc next)]

def unaryValue : UnaryOp → Expr
  | .neg => .wrap (.neg (.var .a))
  | .abs => .wrap (.abs (.var .a))
  | .isZero => flag (.compare .eq (.var .a) (.int 0))

def unary (op : UnaryOp) (next : Int) : List Stmt :=
  [requireDepth (Opcode.unary op).requiredDepth, .simple (.assign .a (.removeLast .stack)),
    .simple (.append .stack (unaryValue op)), .simple (setPc next)]

def stackEffect : StackOp → Simple
  | .dup => .append .stack (.element .stack last)
  | .swap => .exchange .stack last secondLast
  | .pop => .discard (.removeLast .stack)

def stack (op : StackOp) (next : Int) : List Stmt :=
  [requireDepth (Opcode.stack op).requiredDepth, .simple (stackEffect op), .simple (setPc next)]

/-- A jump without a position is a sure fault. -/
def jump : Option Int → Simple
  | some position => setPc position
  | none => fail .badJumpTarget

def conditionTest : Condition → Expr
  | .ifZero => .compare .eq (.var .c) (.int 0)
  | .ifNonzero => .compare .ne (.var .c) (.int 0)

def branch (condition : Condition) (target : Option Int) (next : Int) : List Stmt :=
  let test := conditionTest condition
  [requireDepth (Opcode.branch condition).requiredDepth,
    .simple (.assign .c (.removeLast .stack))] ++
    match target with
    | some _ => [.ifElse test [jump target] [setPc next]]
    | none => [.ifThen test [jump target], .simple (setPc next)]

/-- The body of an arm. A refused action has none. -/
def body : Action → List Stmt × Option Misfit
  | .halt => (halt, none)
  | .pushConst value next =>
      ([.simple (.append .stack (.int value.toInt)), .simple (setPc next)], none)
  | .loadInput index mode next => (loadInput index mode next, none)
  | .binary (.binary op) next => (binary op next, none)
  | .binary opcode _ => ([], some (.binary opcode))
  | .unary (.unary op) next => (unary op next, none)
  | .unary opcode _ => ([], some (.unary opcode))
  | .stack (.stack op) next => (stack op next, none)
  | .stack opcode _ => ([], some (.stack opcode))
  | .jump target => ([.simple (jump target)], none)
  | .branch (.branch condition) target next => (branch condition target next, none)
  | .branch opcode _ _ => ([], some (.branch opcode))

def loopTest (program : Program) : Expr :=
  .compare .lt (.var .steps) (.int program.maxSteps.toInt)

def opening (name : Text) (program : Program) : List Edit :=
  [.line ("def " ++ name ++ "(xs: list[int]) -> tuple[int, int]:"), .indent] ++
    wrapHelper.edits ++ truncDivHelper.edits ++ Simple.edits locals ++
    [.line ("while " ++ (loopTest program).text ++ ":"), .indent]

def arm (pc : Int) (first : Bool) : List Edit :=
  let test : Expr := .compare .eq (.var .pc) (.int pc)
  let keyword : Text := if first then "if " else "elif "
  [.line (keyword ++ test.text ++ ":"), .indent, .line (Simple.increment .steps).text]

def otherArm (first : Bool) : List Edit :=
  [.line (if first then "if " ++ Expr.true.text ++ ":" else "else:"), .indent]

def target : Target where
  opening := opening
  arm := arm
  otherArm := otherArm
  endArm := [.dedent]
  closing _ := [.dedent, .line (fail .stepLimit).text, .dedent]
  action action := ((body action).1.flatMap Stmt.edits, (body action).2)

end StackMachine.Render.Python

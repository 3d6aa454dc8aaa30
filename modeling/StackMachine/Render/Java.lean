import StackMachine.Render.Target

/-!
Java as a target. The rendered method keeps the operand stack in an array that grows when it is
full, with its depth in `sp`; the arms are one chain of conditionals whose last brace the closing
writes.
-/

namespace StackMachine.Render.Java

set_option autoImplicit false

inductive Var where
  | xs | stack | sp | pc | steps | a | b | c | t
deriving DecidableEq, Repr

def Var.text : Var → Text
  | .xs => "xs"
  | .stack => "stack"
  | .sp => "sp"
  | .pc => "pc"
  | .steps => "steps"
  | .a => "a"
  | .b => "b"
  | .c => "c"
  | .t => "t"

inductive Operator where
  | add | sub | mul | div | mod
deriving DecidableEq, Repr

def Operator.text : Operator → Text
  | .add => " + "
  | .sub => " - "
  | .mul => " * "
  | .div => " / "
  | .mod => " % "

inductive Relation where
  | eq | ne | lt | gt | ge
deriving DecidableEq, Repr

def Relation.text : Relation → Text
  | .eq => " == "
  | .ne => " != "
  | .lt => " < "
  | .gt => " > "
  | .ge => " >= "

/-- The least word has no literal of its own and is named instead. -/
def literal (value : Word) : Text :=
  if value = Int64.minValue then "Long.MIN_VALUE" else Decimal.ofInt value.toInt ++ "L"

inductive Expr where
  | var (name : Var)
  | int (value : Int)
  | long (value : Word)
  | neg (operand : Expr)
  | abs (operand : Expr)
  | floorMod (left right : Expr)
  | arith (operator : Operator) (left right : Expr)
  | compare (relation : Relation) (left right : Expr)
  | choice (test value other : Expr)
  | group (inner : Expr)
  | toInt (operand : Expr)
  | toLong (operand : Expr)
  | length (array : Var)
  | element (array : Var) (index : Expr)
  /-- Lowers a variable by one and is its new value. -/
  | lowered (name : Var)
  /-- Raises a variable by one and is its old value. -/
  | raised (name : Var)
  /-- A copy of an array with another length, filled up with zeros. -/
  | copyOf (array : Var) (size : Expr)
deriving DecidableEq, Repr

def Expr.text : Expr → Text
  | .var name => name.text
  | .int value => Decimal.ofInt value
  | .long value => literal value
  | .neg operand => "-" ++ operand.text
  | .abs operand => "Math.abs(" ++ operand.text ++ ")"
  | .floorMod left right => "Math.floorMod(" ++ left.text ++ ", " ++ right.text ++ ")"
  | .arith operator left right => left.text ++ operator.text ++ right.text
  | .compare relation left right => left.text ++ relation.text ++ right.text
  | .choice test value other => test.text ++ " ? " ++ value.text ++ " : " ++ other.text
  | .group inner => "(" ++ inner.text ++ ")"
  | .toInt operand => "(int) " ++ operand.text
  | .toLong operand => "(long) " ++ operand.text
  | .length array => array.text ++ ".length"
  | .element array index => array.text ++ "[" ++ index.text ++ "]"
  | .lowered name => "--" ++ name.text
  | .raised name => name.text ++ "++"
  | .copyOf array size =>
      "java.util.Arrays.copyOf(" ++ array.text ++ ", " ++ size.text ++ ")"

/-- A statement of one line. -/
inductive Simple where
  | declare (name : Var) (value : Expr)
  | assign (name : Var) (value : Expr)
  | store (array : Var) (index value : Expr)
  | increment (name : Var)
  | decrement (name : Var)
  | answer (status : Status) (value : Expr)
deriving DecidableEq, Repr

def Simple.text : Simple → Text
  | .declare name value => "long " ++ name.text ++ " = " ++ value.text ++ ";"
  | .assign name value => name.text ++ " = " ++ value.text ++ ";"
  | .store array index value =>
      array.text ++ "[" ++ index.text ++ "] = " ++ value.text ++ ";"
  | .increment name => name.text ++ "++;"
  | .decrement name => name.text ++ "--;"
  | .answer status value =>
      "return new long[] \x7b" ++ Decimal.ofNat status.code ++ "L, " ++ value.text ++ "\x7d;"

inductive Stmt where
  | simple (stmt : Simple)
  | ifThen (test : Expr) (body : List Simple)
  | ifElse (test : Expr) (body other : List Simple)
deriving DecidableEq, Repr

def Simple.edits (body : List Simple) : List Edit := body.map fun stmt => .line stmt.text

def ifLine (test : Expr) : Text := "if (" ++ test.text ++ ") \x7b"

def elseText : Text := "\x7d else "

def closeLine : Edit := .line "\x7d"

def Stmt.edits : Stmt → List Edit
  | .simple stmt => [.line stmt.text]
  | .ifThen test body => .line (ifLine test) :: Edit.nested (Simple.edits body) ++ [closeLine]
  | .ifElse test body other =>
      .line (ifLine test) :: Edit.nested (Simple.edits body) ++
        .line (elseText ++ "\x7b") :: Edit.nested (Simple.edits other) ++ [closeLine]

def fail (status : Status) : Simple := .answer status (.long 0)

def setPc (position : Int) : Simple := .assign .pc (.int position)

def requireDepth (depth : Nat) : Stmt :=
  .ifThen (.compare .lt (.var .sp) (.int depth)) [fail .stackUnderflow]

/-- The position `below` entries beneath the stack pointer. -/
def beneath (below : Int) : Expr := .arith .sub (.var .sp) (.int below)

def top : Expr := .element .stack (beneath 1)

def pop : Expr := .element .stack (.lowered .sp)

/-- Doubles a full stack before the value is stored. -/
def push (value : Expr) : List Stmt :=
  [.ifThen (.compare .eq (.var .sp) (.length .stack))
      [.assign .stack (.copyOf .stack (.arith .mul (.var .sp) (.int 2)))],
    .simple (.store .stack (.raised .sp) value)]

def halt : List Stmt :=
  [.ifThen (.compare .eq (.var .sp) (.int 0)) [fail .emptyStackOnHalt],
    .simple (.answer .ok top)]

/-- A negative direct index is out of range whatever the inputs are. -/
def loadInput (index : Word) (mode : InputMode) (next : Int) : List Stmt :=
  match mode with
  | .cyclic =>
      [.ifThen (.compare .eq (.length .xs) (.int 0)) [fail .invalidInputIndex]] ++
        push (.element .xs
          (.toInt (.floorMod (.long index) (.toLong (.length .xs))))) ++
        [.simple (setPc next)]
  | .direct =>
      if index < 0 then [.simple (fail .invalidInputIndex)]
      else
        [.ifThen (.compare .ge (.long index) (.length .xs)) [fail .invalidInputIndex]] ++
          push (.element .xs (.toInt (.long index))) ++ [.simple (setPc next)]

/-- One when the test holds, else zero. -/
def flag (test : Expr) : Expr := .choice (.group test) (.long 1) (.long 0)

def binaryValue : BinaryOp → Expr
  | .add => .arith .add (.var .a) (.var .b)
  | .sub => .arith .sub (.var .a) (.var .b)
  | .mul => .arith .mul (.var .a) (.var .b)
  | .div => .arith .div (.var .a) (.var .b)
  | .mod => .arith .mod (.var .a) (.var .b)
  | .eq => flag (.compare .eq (.var .a) (.var .b))
  | .gt => flag (.compare .gt (.var .a) (.var .b))
  | .lt => flag (.compare .lt (.var .a) (.var .b))

/-- A division first answers for a zero divisor. -/
def divisorCheck : BinaryOp → List Stmt
  | .div | .mod => [.ifThen (.compare .eq (.var .b) (.long 0)) [fail .divOrModByZero]]
  | .add | .sub | .mul | .eq | .gt | .lt => []

def binary (op : BinaryOp) (next : Int) : List Stmt :=
  [requireDepth (Opcode.binary op).requiredDepth, .simple (.declare .b pop),
    .simple (.declare .a pop)] ++ divisorCheck op ++ push (binaryValue op) ++
    [.simple (setPc next)]

def unaryValue : UnaryOp → Expr
  | .neg => .neg (.var .a)
  | .abs => .abs (.var .a)
  | .isZero => flag (.compare .eq (.var .a) (.long 0))

def unary (op : UnaryOp) (next : Int) : List Stmt :=
  [requireDepth (Opcode.unary op).requiredDepth, .simple (.declare .a pop)] ++
    push (unaryValue op) ++ [.simple (setPc next)]

def stackEffect : StackOp → List Stmt
  | .dup => .simple (.declare .a top) :: push (.var .a)
  | .swap =>
      [.simple (.declare .t top),
        .simple (.store .stack (beneath 1) (.element .stack (beneath 2))),
        .simple (.store .stack (beneath 2) (.var .t))]
  | .pop => [.simple (.decrement .sp)]

def stack (op : StackOp) (next : Int) : List Stmt :=
  requireDepth (Opcode.stack op).requiredDepth :: stackEffect op ++ [.simple (setPc next)]

/-- A jump without a position is a sure fault. -/
def jump : Option Int → Simple
  | some position => setPc position
  | none => fail .badJumpTarget

def conditionTest : Condition → Expr
  | .ifZero => .compare .eq (.var .c) (.long 0)
  | .ifNonzero => .compare .ne (.var .c) (.long 0)

def branch (condition : Condition) (target : Option Int) (next : Int) : List Stmt :=
  let test := conditionTest condition
  [requireDepth (Opcode.branch condition).requiredDepth, .simple (.declare .c pop)] ++
    match target with
    | some _ => [.ifElse test [jump target] [setPc next]]
    | none => [.ifThen test [jump target], .simple (setPc next)]

/-- The body of an arm. A refused action has none, but for the depth check with which every stack
operation begins. -/
def body : Action → List Stmt × Option Misfit
  | .halt => (halt, none)
  | .pushConst value next => (push (.long value) ++ [.simple (setPc next)], none)
  | .loadInput index mode next => (loadInput index mode next, none)
  | .binary (.binary op) next => (binary op next, none)
  | .binary opcode _ => ([], some (.binary opcode))
  | .unary (.unary op) next => (unary op next, none)
  | .unary opcode _ => ([], some (.unary opcode))
  | .stack (.stack op) next => (stack op next, none)
  | .stack opcode _ => ([requireDepth opcode.requiredDepth], some (.stack opcode))
  | .jump target => ([.simple (jump target)], none)
  | .branch (.branch condition) target next => (branch condition target next, none)
  | .branch opcode _ _ => ([], some (.branch opcode))

/-- A variable of the method, with its first value. -/
inductive Declaration where
  | array (name : Var) (size : Nat)
  | int (name : Var) (value : Int)
  | long (name : Var) (value : Word)
deriving DecidableEq, Repr

def Declaration.text : Declaration → Text
  | .array name size => "long[] " ++ name.text ++ " = new long[" ++ Decimal.ofNat size ++ "];"
  | .int name value => "int " ++ name.text ++ " = " ++ Decimal.ofInt value ++ ";"
  | .long name value => "long " ++ name.text ++ " = " ++ literal value ++ ";"

/-- The stack starts with room for a few entries, so that doubling it always helps. -/
def locals : List Declaration := [.array .stack 16, .int .sp 0, .int .pc 0, .long .steps 0]

def loopTest (program : Program) : Expr := .compare .lt (.var .steps) (.long program.maxSteps)

def opening (name : Text) (program : Program) : List Edit :=
  [.line ("public static long[] " ++ name ++ "(long[] xs) \x7b"), .indent] ++
    locals.map (fun declaration => .line declaration.text) ++
    [.line ("while (" ++ (loopTest program).text ++ ") \x7b"), .indent]

def arm (pc : Int) (first : Bool) : List Edit :=
  let head := ifLine (.compare .eq (.var .pc) (.int pc))
  [.line (if first then head else elseText ++ head), .indent,
    .line (Simple.increment .steps).text]

def otherArm (first : Bool) : List Edit :=
  [.line (if first then "\x7b" else elseText ++ "\x7b"), .indent]

/-- The brace of the last arm is written only if there was an arm. -/
def closing (armOpened : Bool) : List Edit :=
  (if armOpened then [closeLine] else []) ++
    [.dedent, closeLine, .line (fail .stepLimit).text, .dedent, closeLine]

def target : Target where
  opening := opening
  arm := arm
  otherArm := otherArm
  endArm := [.dedent]
  closing := closing
  action action := ((body action).1.flatMap Stmt.edits, (body action).2)

end StackMachine.Render.Java

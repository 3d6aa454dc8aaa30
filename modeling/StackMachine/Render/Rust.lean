import StackMachine.Render.Target

/-!
Rust as a target. The rendered function keeps the operand stack in a vector and matches on `pc`;
arithmetic is written with the wrapping methods, so that it has no overflow to check.
-/

namespace StackMachine.Render.Rust

set_option autoImplicit false

inductive Var where
  | xs | stack | pc | steps | a | b | c | n | i
deriving DecidableEq, Repr

def Var.text : Var → Text
  | .xs => "xs"
  | .stack => "stack"
  | .pc => "pc"
  | .steps => "steps"
  | .a => "a"
  | .b => "b"
  | .c => "c"
  | .n => "n"
  | .i => "i"

/-- The arithmetic methods that wrap. -/
inductive Wrapping where
  | add | sub | mul | div | rem
deriving DecidableEq, Repr

def Wrapping.text : Wrapping → Text
  | .add => ".wrapping_add("
  | .sub => ".wrapping_sub("
  | .mul => ".wrapping_mul("
  | .div => ".wrapping_div("
  | .rem => ".wrapping_rem("

inductive Relation where
  | eq | ne | lt | gt | le
deriving DecidableEq, Repr

def Relation.text : Relation → Text
  | .eq => " == "
  | .ne => " != "
  | .lt => " < "
  | .gt => " > "
  | .le => " <= "

inductive Expr where
  | var (name : Var)
  | int (value : Int)
  /-- A literal whose type is spelled out. -/
  | typedInt (value : Int)
  /-- The least word, by its name. -/
  | minimum
  | wrapping (method : Wrapping) (receiver argument : Expr)
  | wrappingNeg (receiver : Expr)
  | wrappingAbs (receiver : Expr)
  | remEuclid (receiver argument : Expr)
  | sub (left right : Expr)
  | compare (relation : Relation) (left right : Expr)
  | choice (test value other : Expr)
  | group (inner : Expr)
  | toI64 (operand : Expr)
  | toUsize (operand : Expr)
  | length (list : Var)
  | isEmpty (list : Var)
  | element (list : Var) (index : Expr)
  /-- Takes the last element off a vector, which may be empty. -/
  | pop (list : Var)
  /-- The content of an optional value that is known to be there. -/
  | unwrap (operand : Expr)
deriving DecidableEq, Repr

def Expr.text : Expr → Text
  | .var name => name.text
  | .int value => Decimal.ofInt value
  | .typedInt value => Decimal.ofInt value ++ "i64"
  | .minimum => "i64::MIN"
  | .wrapping method receiver argument =>
      receiver.text ++ method.text ++ argument.text ++ ")"
  | .wrappingNeg receiver => receiver.text ++ ".wrapping_neg()"
  | .wrappingAbs receiver => receiver.text ++ ".wrapping_abs()"
  | .remEuclid receiver argument => receiver.text ++ ".rem_euclid(" ++ argument.text ++ ")"
  | .sub left right => left.text ++ " - " ++ right.text
  | .compare relation left right => left.text ++ relation.text ++ right.text
  | .choice test value other =>
      "if " ++ test.text ++ " \x7b " ++ value.text ++ " \x7d else \x7b " ++ other.text ++ " \x7d"
  | .group inner => "(" ++ inner.text ++ ")"
  | .toI64 operand => operand.text ++ " as i64"
  | .toUsize operand => operand.text ++ " as usize"
  | .length list => list.text ++ ".len()"
  | .isEmpty list => list.text ++ ".is_empty()"
  | .element list index => list.text ++ "[" ++ index.text ++ "]"
  | .pop list => list.text ++ ".pop()"
  | .unwrap operand => operand.text ++ ".unwrap()"

def literal (value : Word) : Expr :=
  if value = Int64.minValue then .minimum else .int value.toInt

/-- A literal on which a method can be called. -/
def receiver (value : Word) : Expr :=
  if value = Int64.minValue then .minimum else .group (.typedInt value.toInt)

/-- A statement of one line. -/
inductive Simple where
  | bind (name : Var) (value : Expr)
  | discard (value : Expr)
  | assign (name : Var) (value : Expr)
  | increment (name : Var)
  | push (list : Var) (value : Expr)
  | swap (list : Var) (first second : Expr)
  | answer (status : Status) (value : Expr)
deriving DecidableEq, Repr

/-- The pair of a status and a value. -/
def pair (status : Status) (value : Expr) : Text :=
  "(" ++ Decimal.ofNat status.code ++ ", " ++ value.text ++ ")"

def Simple.text : Simple → Text
  | .bind name value => "let " ++ name.text ++ " = " ++ value.text ++ ";"
  | .discard value => "let _ = " ++ value.text ++ ";"
  | .assign name value => name.text ++ " = " ++ value.text ++ ";"
  | .increment name => name.text ++ " += 1;"
  | .push list value => list.text ++ ".push(" ++ value.text ++ ");"
  | .swap list first second =>
      list.text ++ ".swap(" ++ first.text ++ ", " ++ second.text ++ ");"
  | .answer status value => "return " ++ pair status value ++ ";"

inductive Stmt where
  | simple (stmt : Simple)
  | ifThen (test : Expr) (body : List Simple)
  | ifElse (test : Expr) (body other : List Simple)
deriving DecidableEq, Repr

def Simple.edits (body : List Simple) : List Edit := body.map fun stmt => .line stmt.text

def ifLine (test : Expr) : Text := "if " ++ test.text ++ " \x7b"

def closeLine : Edit := .line "\x7d"

def Stmt.edits : Stmt → List Edit
  | .simple stmt => [.line stmt.text]
  | .ifThen test body => .line (ifLine test) :: Edit.nested (Simple.edits body) ++ [closeLine]
  | .ifElse test body other =>
      .line (ifLine test) :: Edit.nested (Simple.edits body) ++
        .line "\x7d else \x7b" :: Edit.nested (Simple.edits other) ++ [closeLine]

def fail (status : Status) : Simple := .answer status (.int 0)

def setPc (position : Int) : Simple := .assign .pc (.int position)

def requireDepth (depth : Nat) : Stmt :=
  let shallow : Expr :=
    if depth = 1 then .isEmpty .stack else .compare .lt (.length .stack) (.int depth)
  .ifThen shallow [fail .stackUnderflow]

def top : Expr := .element .stack (.sub (.length .stack) (.int 1))

def pop : Expr := .unwrap (.pop .stack)

def halt : List Stmt :=
  [.ifThen (.isEmpty .stack) [fail .emptyStackOnHalt], .simple (.answer .ok top)]

/-- A negative direct index is out of range whatever the inputs are. -/
def loadInput (index : Word) (mode : InputMode) (next : Int) : List Stmt :=
  match mode with
  | .cyclic =>
      [.ifThen (.isEmpty .xs) [fail .invalidInputIndex],
        .simple (.bind .i (.toUsize (.remEuclid (receiver index) (.toI64 (.length .xs))))),
        .simple (.push .stack (.element .xs (.var .i))), .simple (setPc next)]
  | .direct =>
      if index < 0 then [.simple (fail .invalidInputIndex)]
      else
        [.ifThen (.compare .le (.length .xs) (.int index.toInt)) [fail .invalidInputIndex],
          .simple (.push .stack (.element .xs (.int index.toInt))), .simple (setPc next)]

/-- One when the test holds, else zero. -/
def flag (test : Expr) : Expr := .choice test (.int 1) (.int 0)

def binaryValue : BinaryOp → Expr
  | .add => .wrapping .add (.var .a) (.var .b)
  | .sub => .wrapping .sub (.var .a) (.var .b)
  | .mul => .wrapping .mul (.var .a) (.var .b)
  | .div => .wrapping .div (.var .a) (.var .b)
  | .mod => .wrapping .rem (.var .a) (.var .b)
  | .eq => flag (.compare .eq (.var .a) (.var .b))
  | .gt => flag (.compare .gt (.var .a) (.var .b))
  | .lt => flag (.compare .lt (.var .a) (.var .b))

/-- A division first answers for a zero divisor. -/
def divisorCheck : BinaryOp → List Stmt
  | .div | .mod => [.ifThen (.compare .eq (.var .b) (.int 0)) [fail .divOrModByZero]]
  | .add | .sub | .mul | .eq | .gt | .lt => []

def binary (op : BinaryOp) (next : Int) : List Stmt :=
  [requireDepth (Opcode.binary op).requiredDepth, .simple (.bind .b pop),
    .simple (.bind .a pop)] ++ divisorCheck op ++
    [.simple (.push .stack (binaryValue op)), .simple (setPc next)]

def unaryValue : UnaryOp → Expr
  | .neg => .wrappingNeg (.var .a)
  | .abs => .wrappingAbs (.var .a)
  | .isZero => flag (.compare .eq (.var .a) (.int 0))

def unary (op : UnaryOp) (next : Int) : List Stmt :=
  [requireDepth (Opcode.unary op).requiredDepth, .simple (.bind .a pop),
    .simple (.push .stack (unaryValue op)), .simple (setPc next)]

def stackEffect : StackOp → List Simple
  | .dup => [.bind .a top, .push .stack (.var .a)]
  | .swap =>
      [.bind .n (.length .stack),
        .swap .stack (.sub (.var .n) (.int 1)) (.sub (.var .n) (.int 2))]
  | .pop => [.discard (.pop .stack)]

def stack (op : StackOp) (next : Int) : List Stmt :=
  requireDepth (Opcode.stack op).requiredDepth :: (stackEffect op).map Stmt.simple ++
    [.simple (setPc next)]

/-- A jump without a position is a sure fault. -/
def jump : Option Int → Simple
  | some position => setPc position
  | none => fail .badJumpTarget

def conditionTest : Condition → Expr
  | .ifZero => .compare .eq (.var .c) (.int 0)
  | .ifNonzero => .compare .ne (.var .c) (.int 0)

def branch (condition : Condition) (target : Option Int) (next : Int) : List Stmt :=
  let test := conditionTest condition
  [requireDepth (Opcode.branch condition).requiredDepth, .simple (.bind .c pop)] ++
    match target with
    | some _ => [.ifElse test [jump target] [setPc next]]
    | none => [.ifThen test [jump target], .simple (setPc next)]

/-- The body of an arm. A refused action has none, but for the depth check with which every stack
operation begins. -/
def body : Action → List Stmt × Option Misfit
  | .halt => (halt, none)
  | .pushConst value next =>
      ([.simple (.push .stack (literal value)), .simple (setPc next)], none)
  | .loadInput index mode next => (loadInput index mode next, none)
  | .binary (.binary op) next => (binary op next, none)
  | .binary opcode _ => ([], some (.binary opcode))
  | .unary (.unary op) next => (unary op next, none)
  | .unary opcode _ => ([], some (.unary opcode))
  | .stack (.stack op) next => (stack op next, none)
  | .stack opcode _ => ([requireDepth opcode.requiredDepth], some (.stack opcode))
  | .jump target => ([.simple (jump target)], none)
  | .branch (.branch condition) target next => (branch condition target next, none)
  | .branch opcode _ _ => ([], some (.branch opcode))

/-- A variable of the function, with its first value. -/
inductive Declaration where
  | emptyVec (name : Var)
  | usize (name : Var) (value : Int)
  | i64 (name : Var) (value : Int)
deriving DecidableEq, Repr

def Declaration.text : Declaration → Text
  | .emptyVec name => "let mut " ++ name.text ++ ": Vec<i64> = Vec::new();"
  | .usize name value => "let mut " ++ name.text ++ ": usize = " ++ Decimal.ofInt value ++ ";"
  | .i64 name value => "let mut " ++ name.text ++ ": i64 = " ++ Decimal.ofInt value ++ ";"

def locals : List Declaration := [.emptyVec .stack, .usize .pc 0, .i64 .steps 0]

def loopTest (program : Program) : Expr :=
  .compare .lt (.var .steps) (.int program.maxSteps.toInt)

def opening (name : Text) (program : Program) : List Edit :=
  [.line "#[allow(unused_mut, unused_assignments, unused_variables, unreachable_code)]",
    .line ("fn " ++ name ++ "(xs: &[i64]) -> (i64, i64) \x7b"), .indent] ++
    locals.map (fun declaration => .line declaration.text) ++
    [.line ("while " ++ (loopTest program).text ++ " \x7b"), .indent, .line "match pc \x7b",
      .indent]

def arm (pc : Int) : List Edit :=
  [.line (Decimal.ofInt pc ++ " => \x7b"), .indent, .line (Simple.increment .steps).text]

def closing : List Edit :=
  [.dedent, closeLine, .dedent, closeLine, .line (pair .stepLimit (.int 0)), .dedent, closeLine]

def target : Target where
  opening := opening
  arm pc _ := arm pc
  otherArm _ := [.line "_ => \x7b", .indent]
  endArm := [.dedent, closeLine]
  closing _ := closing
  action action := ((body action).1.flatMap Stmt.edits, (body action).2)

end StackMachine.Render.Rust

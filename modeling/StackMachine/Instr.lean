import StackMachine.Text.Decimal
import StackMachine.Word

/-!
The instruction set. Opcodes that act alike on the stack are grouped, and an instruction carries
exactly the operand that its opcode takes. `Opcode.all` fixes the numbering.
-/

namespace StackMachine

set_option autoImplicit false

inductive BinaryOp where
  | add | sub | mul | div | mod | eq | gt | lt
deriving DecidableEq, Repr

inductive UnaryOp where
  | neg | abs | isZero
deriving DecidableEq, Repr

inductive StackOp where
  | dup | swap | pop
deriving DecidableEq, Repr

/-- When a conditional jump is taken. -/
inductive Condition where
  | ifZero | ifNonzero
deriving DecidableEq, Repr

inductive Opcode where
  | halt
  | pushConst
  | loadInput
  | binary (op : BinaryOp)
  | unary (op : UnaryOp)
  | stack (op : StackOp)
  | jump
  | branch (condition : Condition)
deriving DecidableEq, Repr

/-- What the operand of an opcode stands for. -/
inductive OperandKind where
  | none | value | index | target
deriving DecidableEq, Repr

inductive Instr where
  | halt
  | pushConst (value : Word)
  | loadInput (index : Word)
  | binary (op : BinaryOp)
  | unary (op : UnaryOp)
  | stack (op : StackOp)
  | jump (target : Word)
  | branch (condition : Condition) (target : Word)
deriving DecidableEq, Repr

def BinaryOp.mnemonic : BinaryOp → Text
  | .add => "add"
  | .sub => "sub"
  | .mul => "mul"
  | .div => "div"
  | .mod => "mod"
  | .eq => "eq"
  | .gt => "gt"
  | .lt => "lt"

def UnaryOp.mnemonic : UnaryOp → Text
  | .neg => "neg"
  | .abs => "abs"
  | .isZero => "is_zero"

def StackOp.mnemonic : StackOp → Text
  | .dup => "dup"
  | .swap => "swap"
  | .pop => "pop"

def OperandKind.all : List OperandKind := [.none, .value, .index, .target]

def OperandKind.field : OperandKind → Text
  | .none => ""
  | .value => "value"
  | .index => "index"
  | .target => "target"

namespace Opcode

def all : List Opcode :=
  [.halt, .pushConst, .loadInput, .binary .add, .binary .sub, .binary .mul, .binary .div,
    .binary .mod, .unary .neg, .unary .abs, .unary .isZero, .stack .dup, .stack .swap, .stack .pop,
    .binary .eq, .binary .gt, .binary .lt, .jump, .branch .ifZero, .branch .ifNonzero]

def mnemonic : Opcode → Text
  | .halt => "halt"
  | .pushConst => "push_const"
  | .loadInput => "load_input"
  | .binary op => op.mnemonic
  | .unary op => op.mnemonic
  | .stack op => op.mnemonic
  | .jump => "jump"
  | .branch .ifZero => "jump_if_zero"
  | .branch .ifNonzero => "jump_if_nonzero"

def ofMnemonic? (name : Text) : Option Opcode := all.find? fun opcode => opcode.mnemonic = name

/-- The position of the opcode in `all`. -/
def code (opcode : Opcode) : Nat := all.idxOf opcode

/-- The mnemonic of the opcode with this number, or `unknown` where there is none. -/
def nameOfCode (code : Nat) : Text :=
  match all[code]? with
  | some opcode => opcode.mnemonic
  | none => "unknown"

def operandKind : Opcode → OperandKind
  | .pushConst => .value
  | .loadInput => .index
  | .jump | .branch _ => .target
  | .halt | .binary _ | .unary _ | .stack _ => .none

def isJump (opcode : Opcode) : Bool := opcode.operandKind = .target

/-- How many stack entries the opcode needs. A halt needs none: on an empty stack it has an
outcome of its own. -/
def requiredDepth : Opcode → Nat
  | .binary _ | .stack .swap => 2
  | .unary _ | .stack .dup | .stack .pop | .branch _ => 1
  | .halt | .pushConst | .loadInput | .jump => 0

end Opcode

/-- Why an opcode and an operand do not make an instruction. -/
inductive InstrError where
  | missingOperand (opcode : Opcode)
  | strayOperand (opcode : Opcode)
deriving DecidableEq, Repr

def InstrError.message : InstrError → Text
  | .missingOperand opcode =>
      "op '" ++ opcode.mnemonic ++ "' requires field '" ++ opcode.operandKind.field ++ "'"
  | .strayOperand opcode => "op '" ++ opcode.mnemonic ++ "' does not take an operand"

namespace Instr

def opcode : Instr → Opcode
  | .halt => .halt
  | .pushConst _ => .pushConst
  | .loadInput _ => .loadInput
  | .binary op => .binary op
  | .unary op => .unary op
  | .stack op => .stack op
  | .jump _ => .jump
  | .branch condition _ => .branch condition

def operand? : Instr → Option Word
  | .pushConst value => some value
  | .loadInput index => some index
  | .jump target | .branch _ target => some target
  | .halt | .binary _ | .unary _ | .stack _ => none

/-- Joins an opcode with the operand it takes, and with no other. -/
def make (opcode : Opcode) (operand : Option Word) : Except InstrError Instr :=
  match opcode, operand with
  | .halt, none => .ok .halt
  | .pushConst, some value => .ok (.pushConst value)
  | .loadInput, some index => .ok (.loadInput index)
  | .binary op, none => .ok (.binary op)
  | .unary op, none => .ok (.unary op)
  | .stack op, none => .ok (.stack op)
  | .jump, some target => .ok (.jump target)
  | .branch condition, some target => .ok (.branch condition target)
  | opcode, none => .error (.missingOperand opcode)
  | opcode, some _ => .error (.strayOperand opcode)

/-- The mnemonic, followed by a blank and the operand if there is one. -/
def text (instr : Instr) : Text :=
  match instr.operand? with
  | none => instr.opcode.mnemonic
  | some operand => instr.opcode.mnemonic ++ " " ++ Decimal.ofInt operand.toInt

end Instr

end StackMachine

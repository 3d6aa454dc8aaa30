import StackMachine.Program

/-!
The machine. One step fetches the instruction at the program counter, counts it, and either moves to
the next configuration or ends the run; past the last instruction the machine halts by itself and
counts nothing. The budget bounds the steps, so every run ends.
-/

namespace StackMachine

set_option autoImplicit false

/-- How a run ends. Each status but `ok` comes with the value zero. -/
inductive Status where
  | ok | stepLimit | stackUnderflow | badJumpTarget | divOrModByZero | invalidInputIndex
  | emptyStackOnHalt
deriving DecidableEq, Repr

namespace Status

def all : List Status :=
  [.ok, .stepLimit, .stackUnderflow, .badJumpTarget, .divOrModByZero, .invalidInputIndex,
    .emptyStackOnHalt]

def name : Status → Text
  | .ok => "Ok"
  | .stepLimit => "StepLimit"
  | .stackUnderflow => "StackUnderflow"
  | .badJumpTarget => "BadJumpTarget"
  | .divOrModByZero => "DivOrModByZero"
  | .invalidInputIndex => "InvalidInputIndex"
  | .emptyStackOnHalt => "EmptyStackOnHalt"

/-- The number by which other programs know the status. -/
def code : Status → Nat
  | .ok => 0
  | .stepLimit => 1
  | .stackUnderflow => 2
  | .badJumpTarget => 3
  | .divOrModByZero => 4
  | .invalidInputIndex => 5
  | .emptyStackOnHalt => 6

def ofCode? (code : Int) : Option Status := all.find? fun status => (status.code : Int) = code

end Status

structure Result where
  status : Status
  value : Word
deriving DecidableEq, Repr

/-- A finished run: its result, the instructions executed and where it stopped. -/
structure Run where
  result : Result
  steps : Nat
  finalPc : Nat
deriving DecidableEq, Repr

/-- A machine between two instructions. The top of the stack comes first. -/
structure Config where
  pc : Nat
  stack : List Word
  steps : Nat
deriving DecidableEq, Repr

/-- Where and how a run ends. The stack is the one that the last instruction found. -/
structure Stop where
  config : Config
  result : Result
deriving DecidableEq, Repr

def Stop.run (stop : Stop) : Run := ⟨stop.result, stop.config.steps, stop.config.pc⟩

inductive Transition where
  | next (config : Config)
  | done (stop : Stop)
deriving DecidableEq, Repr

def Result.fault (status : Status) : Result := ⟨status, 0⟩

/-- A halt answers with the top of the stack. -/
def Result.halt : List Word → Result
  | [] => .fault .emptyStackOnHalt
  | top :: _ => ⟨.ok, top⟩

/-- The value of a binary operation; `none` when the divisor is zero. -/
def BinaryOp.eval? (op : BinaryOp) (left right : Word) : Option Word :=
  match op with
  | .add => some (Word.add left right)
  | .sub => some (Word.sub left right)
  | .mul => some (Word.mul left right)
  | .div => if right = 0 then none else some (Word.div left right)
  | .mod => if right = 0 then none else some (Word.rem left right)
  | .eq => some (Word.ofBool (left == right))
  | .gt => some (Word.ofBool (left > right))
  | .lt => some (Word.ofBool (left < right))

def UnaryOp.eval (op : UnaryOp) (value : Word) : Word :=
  match op with
  | .neg => Word.neg value
  | .abs => Word.abs value
  | .isZero => Word.ofBool (value == 0)

def Condition.holds (condition : Condition) (value : Word) : Bool :=
  match condition with
  | .ifZero => value == 0
  | .ifNonzero => value != 0

namespace Config

def start : Config := ⟨0, [], 0⟩

/-- Ends the run at this configuration. -/
def finish (config : Config) (result : Result) : Transition := .done ⟨config, result⟩

/-- Goes on with the next instruction on a new stack. -/
def advance (config : Config) (stack : List Word) : Transition :=
  .next { config with pc := config.pc + 1, stack := stack }

end Config

namespace Program

/-- Goes on at the position to which the target resolves. -/
def takeJump (program : Program) (target : Word) (config : Config) (stack : List Word) :
    Transition :=
  match program.jumpMode.resolve? program.length target with
  | some position => .next { config with pc := position, stack := stack }
  | none => config.finish (.fault .badJumpTarget)

/-- The effect of one instruction. An instruction that finds too few entries on the stack leaves
them there. -/
def execute (program : Program) (inputs : List Word) (instr : Instr) (config : Config) :
    Transition :=
  match instr, config.stack with
  | .halt, stack => config.finish (.halt stack)
  | .pushConst value, stack => config.advance (value :: stack)
  | .loadInput index, stack =>
      match program.inputMode.fetch? inputs index with
      | some value => config.advance (value :: stack)
      | none => config.finish (.fault .invalidInputIndex)
  | .binary op, right :: left :: stack =>
      match op.eval? left right with
      | some value => config.advance (value :: stack)
      | none => config.finish (.fault .divOrModByZero)
  | .unary op, value :: stack => config.advance (op.eval value :: stack)
  | .stack .dup, value :: stack => config.advance (value :: value :: stack)
  | .stack .swap, upper :: lower :: stack => config.advance (lower :: upper :: stack)
  | .stack .pop, _ :: stack => config.advance stack
  | .jump target, stack => program.takeJump target config stack
  | .branch condition target, value :: stack =>
      if condition.holds value then program.takeJump target config stack
      else config.advance stack
  | _, _ => config.finish (.fault .stackUnderflow)

def step (program : Program) (inputs : List Word) (config : Config) : Transition :=
  match program.code[config.pc]? with
  | none => config.finish (.halt config.stack)
  | some instr => program.execute inputs instr { config with steps := config.steps + 1 }

/-- Steps from any configuration until the run ends by itself or has used up the given number of
steps. -/
def stopFrom (program : Program) (inputs : List Word) : Nat → Config → Stop
  | 0, config => ⟨config, .fault .stepLimit⟩
  | remaining + 1, config =>
      match program.step inputs config with
      | .next config => program.stopFrom inputs remaining config
      | .done stop => stop

def stop (program : Program) (inputs : List Word) : Stop :=
  program.stopFrom inputs program.budget .start

def run (program : Program) (inputs : List Word) : Run := (program.stop inputs).run

def evaluate (program : Program) (inputs : List Word) : Result := (program.run inputs).result

end Program

end StackMachine

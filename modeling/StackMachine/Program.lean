import StackMachine.Instr
import StackMachine.Policy

/-!
Programs that a machine may run: code with a halt in it, a positive step budget, and the policies
for operands out of range. The conditions are part of the type, and `Program.create` checks them.
-/

namespace StackMachine

set_option autoImplicit false

structure Program where
  code : List Instr
  maxSteps : Word
  jumpMode : JumpMode
  inputMode : InputMode
  halts : Instr.halt ∈ code
  positive : 1 ≤ maxSteps
deriving DecidableEq, Repr

/-- Why a program is refused. -/
inductive ProgramError where
  | empty | noHalt | noBudget
deriving DecidableEq, Repr

def ProgramError.message : ProgramError → Text
  | .empty => "program must not be empty"
  | .noHalt => "program must contain at least one 'halt' instruction"
  | .noBudget => "max_step_count must be >= 1"

namespace Program

/-- The step budget of a program that does not set one. -/
def defaultMaxSteps : Word := 64

def create (code : List Instr) (maxSteps : Word) (jumpMode : JumpMode) (inputMode : InputMode) :
    Except ProgramError Program :=
  if code = [] then .error .empty
  else if halts : Instr.halt ∈ code then
    if positive : 1 ≤ maxSteps then .ok ⟨code, maxSteps, jumpMode, inputMode, halts, positive⟩
    else .error .noBudget
  else .error .noHalt

def length (program : Program) : Nat := program.code.length

def budget (program : Program) : Nat := program.maxSteps.toInt.toNat

/-- The same program under another budget. -/
def withMaxSteps (program : Program) (maxSteps : Word) (positive : 1 ≤ maxSteps) : Program :=
  ⟨program.code, maxSteps, program.jumpMode, program.inputMode, program.halts, positive⟩

end Program

end StackMachine

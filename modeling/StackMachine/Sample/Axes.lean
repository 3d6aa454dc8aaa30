import StackMachine.Diagnostic
import StackMachine.Policy

/-!
The axes along which programs and inputs are sampled, and the conditions on them. Of several
violated conditions the first in the order of `Axes.check` is reported.
-/

namespace StackMachine.Sample

set_option autoImplicit false

structure Range where
  low : Word
  high : Word
deriving DecidableEq, Repr

/-- Moves a word to the nearest one in the range. -/
def Range.clamp (range : Range) (word : Word) : Word := min (max word range.low) range.high

/-- The sampled ranges. -/
inductive Axis where
  | value | listLength | programLength | constant | maxSteps
deriving DecidableEq, Repr

def Axis.all : List Axis := [.value, .listLength, .programLength, .constant, .maxSteps]

def Axis.name : Axis → Text
  | .value => "value_range"
  | .listLength => "list_length_range"
  | .programLength => "program_length_range"
  | .constant => "const_range"
  | .maxSteps => "max_step_count_range"

structure Axes where
  /-- The elements of inputs. -/
  value : Range
  listLength : Range
  /-- The instructions of a program, its halt included. -/
  programLength : Range
  /-- The operands of `push_const`. -/
  constant : Range
  maxSteps : Range
  jumpModes : List JumpMode
  inputModes : List InputMode
deriving DecidableEq, Repr

inductive AxesError where
  | inverted (axis : Axis) (range : Range)
  | negativeListLength
  | longList
  | emptyProgram
  | noBudget
  | noJumpMode
  | noInputMode
deriving DecidableEq, Repr

/-- The greatest length of a sampled input. -/
def maxListLength : Word := 1048576

def AxesError.message : AxesError → Text
  | .inverted axis range =>
      axis.name ++ ": low (" ++ Decimal.ofInt range.low.toInt ++ ") must be <= high (" ++
        Decimal.ofInt range.high.toInt ++ ")"
  | .negativeListLength => "list_length_range: low must be >= 0"
  | .longList => "list_length_range: high must be <= " ++ Decimal.ofInt maxListLength.toInt
  | .emptyProgram => "program_length_range: low must be >= 1"
  | .noBudget => "max_step_count_range: low must be >= 1"
  | .noJumpMode => "jump_target_modes must not be empty"
  | .noInputMode => "input_modes must not be empty"

namespace Axes

def standard : Axes where
  value := ⟨-50, 50⟩
  listLength := ⟨0, 8⟩
  programLength := ⟨2, 12⟩
  constant := ⟨-10, 10⟩
  maxSteps := ⟨20, 160⟩
  jumpModes := JumpMode.all
  inputModes := InputMode.all

def range (axes : Axes) : Axis → Range
  | .value => axes.value
  | .listLength => axes.listLength
  | .programLength => axes.programLength
  | .constant => axes.constant
  | .maxSteps => axes.maxSteps

/-- The first violated condition, if any. -/
def check (axes : Axes) : Option AxesError :=
  match Axis.all.find? fun axis => (axes.range axis).high < (axes.range axis).low with
  | some axis => some (.inverted axis (axes.range axis))
  | none =>
      if axes.listLength.low < 0 then some .negativeListLength
      else if maxListLength < axes.listLength.high then some .longList
      else if axes.programLength.low < 1 then some .emptyProgram
      else if axes.maxSteps.low < 1 then some .noBudget
      else if axes.jumpModes = [] then some .noJumpMode
      else if axes.inputModes = [] then some .noInputMode
      else none

/-- The least and greatest lengths of an input. -/
def minLength (axes : Axes) : Nat := axes.listLength.low.toInt.toNat

def maxLength (axes : Axes) : Nat := axes.listLength.high.toInt.toNat

end Axes

end StackMachine.Sample

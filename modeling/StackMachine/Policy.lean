import StackMachine.Text
import StackMachine.Word

/-!
Policies for operands that point outside their range. A jump target is resolved against the length
of the program and an input index against the number of inputs; a resolved operand is in range.
-/

namespace StackMachine

set_option autoImplicit false

/-- What becomes of a jump target outside the program. -/
inductive JumpMode where
  | error | clamp | wrap
deriving DecidableEq, Repr

/-- What becomes of an input index outside the input sequence. -/
inductive InputMode where
  | direct | cyclic
deriving DecidableEq, Repr

namespace JumpMode

def all : List JumpMode := [.error, .clamp, .wrap]

def name : JumpMode → Text
  | .error => "error"
  | .clamp => "clamp"
  | .wrap => "wrap"

def ofName? (name : Text) : Option JumpMode := all.find? fun mode => mode.name = name

/-- The position that a jump to `target` reaches in a program of `length` instructions. A target in
range is itself; otherwise it is refused, moved to the nearest end, or reduced modulo the length. -/
def resolve? (mode : JumpMode) (length : Nat) (target : Word) : Option Nat :=
  if length = 0 then none
  else if 0 ≤ target.toInt ∧ target.toInt < length then some target.toInt.toNat
  else
    match mode with
    | .error => none
    | .clamp => some (if target.toInt < 0 then 0 else length - 1)
    | .wrap => some (target.toInt % length).toNat

end JumpMode

namespace InputMode

def all : List InputMode := [.direct, .cyclic]

def name : InputMode → Text
  | .direct => "direct"
  | .cyclic => "cyclic"

def ofName? (name : Text) : Option InputMode := all.find? fun mode => mode.name = name

/-- The position that `index` selects among `count` inputs. -/
def resolve? (mode : InputMode) (count : Nat) (index : Word) : Option Nat :=
  match mode with
  | .direct =>
      if 0 ≤ index.toInt ∧ index.toInt < count then some index.toInt.toNat else none
  | .cyclic => if count = 0 then none else some (index.toInt % count).toNat

/-- The input that `index` selects. -/
def fetch? (mode : InputMode) (inputs : List Word) (index : Word) : Option Word :=
  (mode.resolve? inputs.length index).bind fun position => inputs[position]?

end InputMode

end StackMachine

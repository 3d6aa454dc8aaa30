import StackMachine.Text

/-!
Decimal spellings. A number is written with the fewest digits and a minus sign when negative; a
literal may also carry a plus sign and leading zeros, and is read only when its value fits a word.
-/

namespace StackMachine.Decimal

set_option autoImplicit false

def ofNat (value : Nat) : Text := (Nat.toDigits 10 value).map fun char => char.toNat.toUInt8

def ofInt : Int → Text
  | .ofNat value => ofNat value
  | .negSucc below => "-" ++ ofNat (below + 1)

/-- The value of a row of digits, most significant first. -/
def value (digits : Text) : Nat :=
  digits.foldl (fun total byte => 10 * total + (byte.toNat - 48)) 0

def digits? (digits : Text) : Option Nat :=
  if digits ≠ [] ∧ digits.all Text.isDigit then some (value digits) else none

/-- An optional single sign, then one or more digits. -/
def toInt? : Text → Option Int
  | 43 :: digits => (digits? digits).map fun magnitude => magnitude
  | 45 :: digits => (digits? digits).map fun magnitude => -magnitude
  | digits => (digits? digits).map fun magnitude => magnitude

/-- A literal whose value lies outside the signed 64-bit range is refused. -/
def toWord? (text : Text) : Option Int64 :=
  (toInt? text).bind fun value =>
    if Int64.minValue.toInt ≤ value ∧ value ≤ Int64.maxValue.toInt then
      some (Int64.ofInt value)
    else none

end StackMachine.Decimal

/-!
Machine words are signed 64-bit integers. Addition, subtraction, multiplication and negation wrap;
the quotient is rounded towards zero and the remainder takes the sign of the dividend.
-/

namespace StackMachine

set_option autoImplicit false

abbrev Word := Int64

namespace Word

def add (left right : Word) : Word := left + right

def sub (left right : Word) : Word := left - right

def mul (left right : Word) : Word := left * right

def neg (value : Word) : Word := -value

/-- The least word has no positive counterpart and is its own absolute value. -/
def abs (value : Word) : Word := if value < 0 then neg value else value

/-- Dividing by minus one is negating, which also covers the one quotient that does not fit. -/
def div (left right : Word) : Word := if right = -1 then neg left else left / right

def rem (left right : Word) : Word := if right = -1 then 0 else left % right

/-- The remainder in `[0, modulus)` for a positive modulus. -/
def floorMod (value modulus : Word) : Word :=
  let remainder := value % modulus
  if remainder < 0 then remainder + modulus else remainder

def ofBool (condition : Bool) : Word := if condition then 1 else 0

end Word

end StackMachine

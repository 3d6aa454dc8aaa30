import StackMachine.Text

/-!
Tokens of an assembly line. A comment runs from the first hash to the end of the line; what stands
before it splits at white space, and each token remembers the column of its first byte.
-/

namespace StackMachine.Assembly

set_option autoImplicit false

structure Token where
  text : Text
  /-- The position of the first byte in its line, counted from one. -/
  column : Nat
deriving DecidableEq, Repr

def hash : UInt8 := 35

def stripComment (line : Text) : Text := line.takeWhile fun byte => byte ≠ hash

namespace Token

/-- The token that ends just before `column`, if there is one. `pending` holds its bytes, latest
first. -/
def ending (column : Nat) (pending : Text) : List Token :=
  if pending = [] then [] else [⟨pending.reverse, column - pending.length⟩]

/-- Reads on at `column` with the bytes of an unfinished token in hand. -/
def scan (column : Nat) (pending : Text) : Text → List Token
  | [] => ending column pending
  | byte :: rest =>
      if Text.isSpace byte then ending column pending ++ scan (column + 1) [] rest
      else scan (column + 1) (byte :: pending) rest

end Token

def tokenize (line : Text) : List Token := Token.scan 1 [] (stripComment line)

end StackMachine.Assembly

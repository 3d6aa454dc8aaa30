import StackMachine.Text

/-!
Indented source text. A source is a list of edits; writing them keeps the current level, and a line
is indented by the level even when it is empty, whereas a blank line never is.
-/

namespace StackMachine.Render

set_option autoImplicit false

inductive Edit where
  | line (text : Text)
  | blank
  | indent
  /-- Leaves the current level; at the outermost level nothing happens. -/
  | dedent
deriving DecidableEq, Repr

namespace Edit

def levelAfter (level : Nat) : Edit → Nat
  | .line _ | .blank => level
  | .indent => level + 1
  | .dedent => level - 1

/-- What one edit writes, with `width` blanks a level. -/
def text (width level : Nat) : Edit → Text
  | .line text => List.replicate (level * width) 32 ++ text ++ [Text.newline]
  | .blank => [Text.newline]
  | .indent | .dedent => []

/-- A body one level deeper. -/
def nested (body : List Edit) : List Edit := .indent :: body ++ [.dedent]

end Edit

/-- The level after some edits. -/
def levelAfter (level : Nat) (edits : List Edit) : Nat := edits.foldl Edit.levelAfter level

def write (width : Nat) : Nat → List Edit → Text
  | _, [] => []
  | level, edit :: rest => edit.text width level ++ write width (edit.levelAfter level) rest

/-- The number of blanks a level in rendered programs. -/
def indentWidth : Nat := 4

end StackMachine.Render

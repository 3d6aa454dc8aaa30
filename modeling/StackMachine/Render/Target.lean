import StackMachine.Render.Layout
import StackMachine.Render.Walk

/-!
A target language says how each piece of a walk is laid out. An action may be refused after a part
of it was laid out; that part stands, and the writing goes on after it.
-/

namespace StackMachine.Render

set_option autoImplicit false

structure Target where
  opening : Text → Program → List Edit
  arm : Int → Bool → List Edit
  otherArm : Bool → List Edit
  endArm : List Edit
  /-- The closing depends on whether any arm was opened before. -/
  closing : Bool → List Edit
  action : Action → List Edit × Option Misfit

/-- How far a source has been written. -/
structure Sheet where
  level : Nat
  armOpened : Bool
deriving DecidableEq, Repr

def Sheet.blank : Sheet := ⟨0, false⟩

def Piece.opensArm : Piece → Bool
  | .arm _ _ | .otherArm _ => true
  | .opening _ _ | .endArm | .closing | .action _ => false

namespace Target

def edits (target : Target) (armOpened : Bool) : Piece → List Edit × Option Misfit
  | .opening name program => (target.opening name program, none)
  | .arm pc first => (target.arm pc first, none)
  | .otherArm first => (target.otherArm first, none)
  | .endArm => (target.endArm, none)
  | .closing => (target.closing armOpened, none)
  | .action action => target.action action

def sheetAfter (target : Target) (sheet : Sheet) (piece : Piece) : Sheet :=
  ⟨levelAfter sheet.level (target.edits sheet.armOpened piece).1,
    sheet.armOpened || piece.opensArm⟩

/-- What one piece adds to the source. -/
def text (target : Target) (sheet : Sheet) (piece : Piece) : Text :=
  write indentWidth sheet.level (target.edits sheet.armOpened piece).1

/-- Why one piece is refused, if it is. -/
def misfit (target : Target) (sheet : Sheet) (piece : Piece) : Option Misfit :=
  (target.edits sheet.armOpened piece).2

def textFrom (target : Target) (sheet : Sheet) : List Piece → Text
  | [] => []
  | piece :: rest => target.text sheet piece ++ target.textFrom (target.sheetAfter sheet piece) rest

end Target

end StackMachine.Render

import StackMachine.Text.Decimal

/-!
Diagnostics and their printed form. Line and column count from one, and zero stands for unknown; a
diagnostic without a line is printed without a column too.
-/

namespace StackMachine

set_option autoImplicit false

inductive Severity where
  | note | warning | error
deriving DecidableEq, Repr

def Severity.all : List Severity := [.note, .warning, .error]

def Severity.name : Severity → Text
  | .note => "note"
  | .warning => "warning"
  | .error => "error"

structure Diagnostic where
  severity : Severity
  message : Text
  line : Nat
  column : Nat
deriving DecidableEq, Repr

namespace Diagnostic

/-- An error that belongs to no place in a text. -/
def unlocated (message : Text) : Diagnostic := ⟨.error, message, 0, 0⟩

/-- What stands before the severity: the path and the place, as far as they are known. -/
def place (path : Text) (diagnostic : Diagnostic) : Text :=
  let file : Text := if path = [] then "" else path ++ ":"
  let line : Text := if diagnostic.line = 0 then "" else Decimal.ofNat diagnostic.line ++ ":"
  let column : Text :=
    if diagnostic.line = 0 ∨ diagnostic.column = 0 then ""
    else Decimal.ofNat diagnostic.column ++ ":"
  let known := file ++ line ++ column
  if known = [] then [] else known ++ " "

def print (path : Text) (diagnostic : Diagnostic) : Text :=
  diagnostic.place path ++ diagnostic.severity.name ++ ": " ++ diagnostic.message ++ "\n"

def printAll (path : Text) (diagnostics : List Diagnostic) : Text :=
  diagnostics.flatMap (print path)

def errorCount (diagnostics : List Diagnostic) : Nat :=
  diagnostics.countP fun diagnostic => diagnostic.severity = .error

def warningCount (diagnostics : List Diagnostic) : Nat :=
  diagnostics.countP fun diagnostic => diagnostic.severity = .warning

end Diagnostic

end StackMachine

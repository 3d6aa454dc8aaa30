import StackMachine.Assembly.Line

/-!
Writing a program as text: the three directives, then one instruction a line.
-/

namespace StackMachine.Assembly

set_option autoImplicit false

def directiveLine (directive : Directive) (value : Text) : Text := directive.name ++ " " ++ value

def listingLines (program : Program) : List Text :=
  directiveLine .maxSteps (Decimal.ofInt program.maxSteps.toInt) ::
    directiveLine .jumpMode program.jumpMode.name ::
    directiveLine .inputMode program.inputMode.name :: program.code.map Instr.text

def listing (program : Program) : Text :=
  (listingLines program).flatMap fun line => line ++ "\n"

end StackMachine.Assembly

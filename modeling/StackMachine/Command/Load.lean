import StackMachine.Assembly.Source
import StackMachine.Command.Script

/-!
Loading a program file, the first thing that most commands do.
-/

namespace StackMachine.Command

set_option autoImplicit false

/-- Reads the program in a file and goes on with it, or fails with what is wrong with the file. -/
def withProgram (path : Text) (proceed : Program → Script) : Script :=
  .read path fun content =>
    match content with
    | none => .fail (Diagnostic.print path (.unlocated ("cannot open '" ++ path ++ "'")))
    | some text =>
        match Assembly.parse text with
        | .ok program => proceed program
        | .error rejection => .fail (Diagnostic.printAll path rejection.all)

end StackMachine.Command

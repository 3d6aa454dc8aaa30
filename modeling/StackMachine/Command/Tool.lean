import StackMachine.Command.Render
import StackMachine.Command.Run
import StackMachine.Command.Sample

/-!
The command line as a whole: the first argument selects the command.
-/

namespace StackMachine.Command

set_option autoImplicit false

def tool : List Text → Script
  | [] => .fail usage
  | command :: arguments =>
      if command = Text.ascii "--version" then .done version
      else if command = Text.ascii "run" then run arguments
      else if command = Text.ascii "render" then render arguments
      else if command = Text.ascii "sample" then sample arguments
      else .fail usage

end StackMachine.Command

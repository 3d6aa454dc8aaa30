import StackMachine.Text

/-!
What the command line says about itself.
-/

namespace StackMachine.Command

set_option autoImplicit false

def version : Text := "sbc v0.1.0\n"

def usage : Text :=
  version ++
    ("Usage: sbc run <file.sbc> [--input a,b,c] [--trace] [--max-steps N] [--verbose]\n" : Text) ++
    ("       sbc render <file.sbc> --lang python|java|rust [--name f] [-o <out>]\n" : Text) ++
    ("       sbc sample [--seed N] [--template 1..5] [--queries]\n" : Text) ++
    ("       sbc --version\n" : Text) ++
    ("\nProgram files hold one instruction per line, e.g. 'push_const 5' or 'add',\n" : Text) ++
    ("optionally preceded by .max_steps, .jump_mode and .input_mode directives.\n" : Text)

end StackMachine.Command

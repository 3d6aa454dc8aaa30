import StackMachine.Command.Load
import StackMachine.Command.Options
import StackMachine.Command.Usage

/-!
The command that runs a program file on inputs. Options may come in any order; of a repeated option
the last one counts.
-/

namespace StackMachine.Command

set_option autoImplicit false

structure RunRequest where
  path : Text
  inputs : List Word
  options : Options
deriving DecidableEq, Repr

inductive RunError where
  | invalidValue (option : Text)
  | missingInputs
  | malformedInputs (text : Text)
  | unknownOption (argument : Text)
  | missingFile
deriving DecidableEq, Repr

def RunError.message : RunError → Text
  | .invalidValue option => "error: invalid value for '" ++ option ++ "'\n"
  | .missingInputs => "error: --input requires a value\n"
  | .malformedInputs text => "error: malformed input list '" ++ text ++ "'\n"
  | .unknownOption argument => "error: unknown option '" ++ argument ++ "'\n"
  | .missingFile => "error: missing program file\n"

namespace RunRequest

def blank : RunRequest := ⟨[], [], .standard⟩

/-- The request is complete once it has a file. -/
def complete (request : RunRequest) : Except RunError RunRequest :=
  if request.path = [] then .error .missingFile else .ok request

/-- Takes an argument as the file, of which there is one. Empty arguments before it are skipped. -/
def takePath (request : RunRequest) (argument : Text) : Except RunError RunRequest :=
  if request.path = [] ∧ looksLikeOption argument = false then
    .ok { request with path := argument }
  else .error (.unknownOption argument)

def read (request : RunRequest) : List Text → Except RunError RunRequest
  | [] => request.complete
  | argument :: rest =>
      match request.options.read argument rest.head? with
      | .flag options => read { request with options := options } rest
      | .valued options =>
          match rest with
          | [] => { request with options := options }.complete
          | _ :: rest => read { request with options := options } rest
      | .invalid => .error (.invalidValue argument)
      | .other =>
          if argument = Text.ascii "--input" then
            match rest with
            | [] => .error .missingInputs
            | list :: rest =>
                match readInputs? list with
                | some inputs => read { request with inputs := inputs } rest
                | none => .error (.malformedInputs list)
          else
            match request.takePath argument with
            | .ok request => read request rest
            | .error error => .error error

/-- The program under the requested budget, if one is requested. -/
def adapt (request : RunRequest) (program : Program) : Program :=
  match request.options.maxSteps with
  | some budget => program.withMaxSteps budget.val budget.property
  | none => program

/-- The status number and the value; on request also the status and the steps in words. -/
def report (request : RunRequest) (run : StackMachine.Run) : Text :=
  let brief : Text :=
    Decimal.ofNat run.result.status.code ++ "," ++ Decimal.ofInt run.result.value.toInt ++ "\n"
  let details : Text :=
    "status: " ++ run.result.status.name ++ " steps: " ++ Decimal.ofNat run.steps ++ "\n"
  if request.options.verbose then brief ++ details else brief

def script (request : RunRequest) : Script :=
  withProgram request.path fun program =>
    let program := request.adapt program
    .exit 0 (request.report (program.run request.inputs))
      (program.traceText request.options.trace request.inputs)

end RunRequest

def run (arguments : List Text) : Script :=
  match RunRequest.blank.read arguments with
  | .ok request => request.script
  | .error error => .fail (error.message ++ usage)

end StackMachine.Command

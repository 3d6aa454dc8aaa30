import StackMachine.Machine.Trace

/-!
Arguments about a run of the machine: its options, one at a time, and its list of inputs.
-/

namespace StackMachine.Command

set_option autoImplicit false

/-- An option begins with a hyphen. -/
def looksLikeOption (argument : Text) : Bool := argument.head? = some 45

/-- A step budget from the command line. -/
abbrev Budget := { steps : Word // 1 ≤ steps }

/-- The options that steer a run of the machine. -/
structure Options where
  trace : TraceMode
  maxSteps : Option Budget
  verbose : Bool
deriving DecidableEq, Repr

def Options.standard : Options := ⟨.off, none, false⟩

def Budget.read? (text : Text) : Option Budget :=
  match Decimal.toWord? text with
  | some steps => if positive : 1 ≤ steps then some ⟨steps, positive⟩ else none
  | none => none

/-- How an argument fares as one of the options. -/
inductive OptionReading where
  /-- Not one of the options. -/
  | other
  | flag (options : Options)
  /-- An option that took the next argument as its value. -/
  | valued (options : Options)
  /-- One of the options, whose value is missing or malformed. -/
  | invalid
deriving DecidableEq, Repr

/-- Reads an argument; `following` is the argument after it. -/
def Options.read (options : Options) (argument : Text) (following : Option Text) :
    OptionReading :=
  if argument = Text.ascii "--trace" then .flag { options with trace := .steps }
  else if argument = Text.ascii "--verbose" then .flag { options with verbose := true }
  else if argument = Text.ascii "--max-steps" then
    match following.bind Budget.read? with
    | some budget => .valued { options with maxSteps := some budget }
    | none => .invalid
  else .other

def comma : UInt8 := 44

/-- A blank text is the empty list; otherwise every piece between commas is a number. -/
def readInputs? (text : Text) : Option (List Word) :=
  if Text.trim text = [] then some []
  else (Text.split comma text).mapM fun piece => Decimal.toWord? (Text.trim piece)

end StackMachine.Command

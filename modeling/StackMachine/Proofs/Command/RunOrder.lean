import StackMachine.Proofs.Command.RunGroups

/-!
# A run in any order of its options

The arguments are read by their positions, and no position behind the last one is read. Groups in
another order make the same request, so they end in the same reply.
-/

namespace StackMachine.Command

set_option autoImplicit false

/-- How an argument fares as one of the options, and how many arguments behind it were taken. -/
inductive Turn where
  | other
  | parsed (options : Options) (more : Nat)
  | invalid

/-- Reads the argument at a position as one of the options. There is no argument behind the last
one, and only where a budget is wanted is it asked whether there is a next one. -/
def Options.turn? (options : Options) (arguments : List Text) (index : Nat) : Option Turn :=
  arguments[index]?.bind fun argument =>
    if argument = Text.ascii "--trace" then some (.parsed { options with trace := .steps } 0)
    else if argument = Text.ascii "--verbose" then
      some (.parsed { options with verbose := true } 0)
    else if argument = Text.ascii "--max-steps" then
      if arguments.length ≤ index + 1 then some .invalid
      else
        arguments[index + 1]?.map fun value =>
          match Budget.read? value with
          | some budget => .parsed { options with maxSteps := some budget } 1
          | none => .invalid
    else some .other

def OptionReading.turn : OptionReading → Turn
  | .other => .other
  | .flag options => .parsed options 0
  | .valued options => .parsed options 1
  | .invalid => .invalid

section

variable (front rest : List Text) (argument : Text)

end

/-- The number of the status and the value. -/
def resultLine (run : StackMachine.Run) : Text :=
  Decimal.ofNat run.result.status.code ++ "," ++ Decimal.ofInt run.result.value.toInt ++ "\n"

def stepsLine (run : StackMachine.Run) : Text :=
  "status: " ++ run.result.status.name ++ " steps: " ++ Decimal.ofNat run.steps ++ "\n"

namespace RunGroup

variable (groups : List RunGroup)

/-- The program under the last budget that the groups name, if they name one. -/
def adapt (program : Program) : Program :=
  match budget? groups with
  | some ⟨steps, positive⟩ => program.withMaxSteps steps positive
  | none => program

/-- What a run of the program prints, and its trace. -/
def reply (program : Program) : Reply :=
  let run := (adapt groups program).run (inputs groups)
  { code := 0
    out := resultLine run ++ if .verbose ∈ groups then stepsLine run else []
    err := (adapt groups program).traceText (mode groups) (inputs groups) }

end RunGroup

end StackMachine.Command

import StackMachine.Machine

/-!
Traces. A traced run writes one record for every instruction, before it takes effect, and one record
for the end of the run.
-/

namespace StackMachine

set_option autoImplicit false

inductive TraceRecord where
  /-- The instruction with this number, counted from one, and the stack depth it finds. -/
  | step (number : Nat) (pc : Int) (instr : Instr) (depth : Nat)
  | exit (status : Status) (value : Word) (steps : Nat)
deriving DecidableEq, Repr

def TraceRecord.text : TraceRecord → Text
  | .step number pc instr depth =>
      "[SBC] step=" ++ Decimal.ofNat number ++ " pc=" ++ Decimal.ofInt pc ++ " op=" ++ instr.text ++
        " depth=" ++ Decimal.ofNat depth ++ "\n"
  | .exit status value steps =>
      "[SBC] exit status=" ++ status.name ++ " value=" ++ Decimal.ofInt value.toInt ++
        " steps=" ++ Decimal.ofNat steps ++ "\n"

inductive TraceMode where
  | off | steps
deriving DecidableEq, Repr

def TraceMode.enabled (mode : TraceMode) : Bool := mode ≠ .off

/-- What is written for the records, which is nothing when tracing is off. -/
def TraceMode.write (mode : TraceMode) (records : List TraceRecord) : Text :=
  if mode.enabled then records.flatMap TraceRecord.text else []

def Run.exitRecord (run : Run) : TraceRecord := .exit run.result.status run.result.value run.steps

namespace Program

/-- The record of the instruction that the next step executes, if it executes one. -/
def stepRecord? (program : Program) (config : Config) : Option TraceRecord :=
  (program.code[config.pc]?).map fun instr =>
    .step (config.steps + 1) config.pc instr config.stack.length

/-- Follows the run as `stopFrom` does and keeps the records, latest first, before `records`. -/
def traceFrom (program : Program) (inputs : List Word) :
    Nat → Config → List TraceRecord → List TraceRecord
  | 0, config, records => (Stop.mk config (.fault .stepLimit)).run.exitRecord :: records
  | remaining + 1, config, records =>
      let records := (program.stepRecord? config).toList ++ records
      match program.step inputs config with
      | .next config => program.traceFrom inputs remaining config records
      | .done stop => stop.run.exitRecord :: records

def trace (program : Program) (inputs : List Word) : List TraceRecord :=
  (program.traceFrom inputs program.budget .start []).reverse

/-- What a run under the given mode writes. -/
def traceText (program : Program) (mode : TraceMode) (inputs : List Word) : Text :=
  match mode with
  | .off => []
  | .steps => mode.write (program.trace inputs)

end Program

end StackMachine

import Mathlib.Data.List.Chain
import StackMachine.Machine.Trace
import StackMachine.Proofs.Machine.Step

/-!
# A trace is an account of the run

The records of a trace are the instructions that the run executed, in order, each with the position
and the depth that it found. One record follows from the one before it by the effect of its
instruction, and the position where the run ended follows from the last one.
-/

namespace StackMachine

set_option autoImplicit false

/-- An instruction that the run executed, where it stood and how many entries it found. -/
structure Visit where
  pc : Nat
  instr : Instr
  depth : Nat
deriving DecidableEq, Repr

namespace Visit

def of (config : Config) (instr : Instr) : Visit := ⟨config.pc, instr, config.stack.length⟩

/-- The records of visits that are numbered from this number on. -/
def records (number : Nat) (visits : List Visit) : List TraceRecord :=
  (visits.zipIdx number).map fun (visit, number) =>
    .step number visit.pc visit.instr visit.depth

end Visit

namespace Program

section

variable (program : Program) (inputs : List Word)

/-- Where a run ends after its last visit: inside that instruction, or, at the limit or past the
last instruction, at a position to which it led. -/
def EndsAfter (run : Run) (last : Visit) : Prop :=
  if run.result.status = .stepLimit ∨ run.finalPc = program.length then
    last.instr.opcode.requiredDepth ≤ last.depth ∧
      program.Leads last.pc last.instr run.finalPc
  else run.finalPc = last.pc

/-- The visits of the run from a configuration on, with so many steps left. -/
inductive Tells : Nat → Config → List Visit → Stop → Prop
  | spent (config : Config) : Tells 0 config [] ⟨config, .fault .stepLimit⟩
  | past (remaining : Nat) (config : Config) (missing : program.code[config.pc]? = none) :
      Tells (remaining + 1) config [] ⟨config, .halt config.stack⟩
  | ended (remaining : Nat) (config : Config) (instr : Instr) (stop : Stop)
      (found : program.code[config.pc]? = some instr)
      (stepped : program.step inputs config = .done stop) :
      Tells (remaining + 1) config [.of config instr] stop
  | onward (remaining : Nat) (config after : Config) (instr : Instr) (visits : List Visit)
      (stop : Stop) (found : program.code[config.pc]? = some instr)
      (stepped : program.step inputs config = .next after)
      (later : Tells remaining after visits stop) :
      Tells (remaining + 1) config (.of config instr :: visits) stop

end

variable {program : Program} {inputs : List Word}

theorem leads_of_next {config after : Config} {instr : Instr}
    (found : program.code[config.pc]? = some instr)
    (stepped : program.step inputs config = .next after) :
    instr.opcode.requiredDepth ≤ config.stack.length ∧
      (after.stack.length : Int) = config.stack.length + instr.opcode.netEffect ∧
      program.Leads config.pc instr after.pc := by
  obtain ⟨other, same, moves, -⟩ := step_moves config after stepped
  obtain rfl := Option.some.inj (found.symm.trans same)
  exact ⟨moves.deep, moves.depth, moves.leads⟩

namespace Tells

variable {remaining : Nat} {config : Config} {visits : List Visit} {stop : Stop}

theorem length (tells : program.Tells inputs remaining config visits stop) :
    stop.config.steps = config.steps + visits.length := by
  induction tells with
  | spent config => rfl
  | past remaining config missing => rfl
  | ended remaining config instr stop found stepped =>
      have inside : config.pc < program.length := (List.getElem?_eq_some_iff.mp found).1
      have counted := (step_done config stop stepped).2.2
      rwa [if_pos inside] at counted
  | onward remaining config after instr visits stop found stepped later ih =>
      have counted := (step_next config after stepped).steps
      rw [ih, counted, List.length_cons]
      omega

theorem found (tells : program.Tells inputs remaining config visits stop) :
    ∀ visit ∈ visits, program.code[visit.pc]? = some visit.instr := by
  induction tells with
  | spent | past => exact fun _ among => nomatch among
  | ended remaining config instr stop found stepped =>
      intro visit among
      obtain rfl := List.mem_singleton.mp among
      exact found
  | onward remaining config after instr visits stop found stepped later ih =>
      intro visit among
      rcases List.mem_cons.mp among with rfl | rest
      · exact found
      · exact ih visit rest

theorem head (tells : program.Tells inputs remaining config visits stop) :
    ∀ visit ∈ visits.head?, ∃ instr, visit = .of config instr := by
  intro visit first
  cases tells with
  | spent | past => cases first
  | ended _ _ instr | onward _ _ _ instr => exact ⟨instr, (Option.some.inj first).symm⟩

theorem nonempty (tells : program.Tells inputs (remaining + 1) config visits stop)
    (inside : config.pc < program.length) : ∃ instr, visits.head? = some (.of config instr) := by
  cases tells with
  | past _ _ missing => exact absurd inside (Nat.not_lt.mpr (List.getElem?_eq_none_iff.mp missing))
  | ended _ _ instr | onward _ _ _ instr => exact ⟨instr, rfl⟩

/-- The only ways to end without another visit are the limit and the end of the code. -/
theorem ends_unvisited (tells : program.Tells inputs remaining config [] stop)
    (inside : config.pc ≤ program.length) :
    stop.config.pc = config.pc ∧
      (stop.result.status = .stepLimit ∨ stop.config.pc = program.length) := by
  cases tells with
  | spent => exact ⟨rfl, Or.inl rfl⟩
  | past _ _ missing =>
      exact ⟨rfl, Or.inr (Nat.le_antisymm inside (List.getElem?_eq_none_iff.mp missing))⟩

theorem last (tells : program.Tells inputs remaining config visits stop) :
    ∀ visit ∈ visits.getLast?, program.EndsAfter stop.run visit := by
  induction tells with
  | spent | past => exact fun _ among => nomatch among
  | ended remaining config instr stop found stepped =>
      intro visit final
      obtain rfl := Option.some.inj final
      have inside : config.pc < program.length := (List.getElem?_eq_some_iff.mp found).1
      obtain ⟨early, same, -⟩ := step_done config stop stepped
      have within : ¬(stop.result.status = .stepLimit ∨ stop.config.pc = program.length) := by
        rw [same]
        exact not_or.mpr ⟨early, Nat.ne_of_lt inside⟩
      rw [EndsAfter, Stop.run, if_neg within]
      exact same
  | onward remaining config after instr visits stop found stepped later ih =>
      intro visit final
      cases visits with
      | nil =>
          -- nothing is executed after this visit, so where it led is where the run ends
          obtain rfl := Option.some.inj final
          obtain ⟨same, outside⟩ := later.ends_unvisited (step_next config after stepped).pc
          obtain ⟨deep, -, leads⟩ := leads_of_next found stepped
          rw [EndsAfter, Stop.run, if_pos outside, same]
          exact ⟨deep, leads⟩
      | cons other visits =>
          rw [List.getLast?_cons_cons] at final
          exact ih visit final

end Tells

end Program

end StackMachine

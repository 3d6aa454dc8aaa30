import StackMachine.Proofs.Machine.Step

/-!
# Why a run ended

A run ends after the last configuration that it reaches, and the status of the run says what was
found there: a spent budget, a halt, or an instruction that could not go on. No later configuration
is involved, so the position and the stack of that one explain the status.
-/

namespace StackMachine

set_option autoImplicit false

namespace Program

section

variable (program : Program) (inputs : List Word)

/-- The configurations between two steps of the run. -/
inductive Reaches : Config → Prop
  | start : Reaches .start
  | next (before after : Config) (reached : Reaches before)
      (allowed : before.steps < program.budget)
      (went : program.step inputs before = .next after) : Reaches after

/-- A run that stops so has this last configuration: there its budget was spent, or the step from
there ended it. -/
def Concludes (last : Config) (stop : Stop) : Prop :=
  (last.steps = program.budget ∧ stop = ⟨last, .fault .stepLimit⟩) ∨
    (last.steps < program.budget ∧ program.step inputs last = .done stop)

/-- The run ended inside this instruction, which the last configuration was about to execute. -/
def StopsAt (last : Config) (run : Run) (instr : Instr) : Prop :=
  program.code[run.finalPc]? = some instr ∧ run.steps = last.steps + 1

/-- The run ended at a halt, or past the last instruction before the budget was spent. -/
def Halts (last : Config) (run : Run) : Prop :=
  program.StopsAt last run .halt ∨
    (run.finalPc = program.length ∧ run.steps = last.steps ∧ run.steps < program.budget)

/-- What the last configuration of the run has to be for this status. The steps tell it from every
other one that the run reached, since each step counts one. -/
def Explains (last : Config) (run : Run) : Prop :=
  match run.result.status with
  | .ok => program.Halts last run ∧ last.stack.head? = some run.result.value
  | .emptyStackOnHalt => program.Halts last run ∧ last.stack = []
  | .stepLimit => run.steps = program.budget ∧ run.steps = last.steps
  | .stackUnderflow =>
      ∃ instr, program.StopsAt last run instr ∧ last.stack.length < instr.opcode.requiredDepth
  | .badJumpTarget =>
      ∃ instr target, program.StopsAt last run instr ∧ instr.taken? last.stack = some target ∧
        program.jumpMode = .error ∧ ¬(0 ≤ target.toInt ∧ target.toInt < program.length)
  | .divOrModByZero =>
      (program.StopsAt last run (.binary .div) ∨ program.StopsAt last run (.binary .mod)) ∧
        2 ≤ last.stack.length ∧ last.stack.head? = some 0
  | .invalidInputIndex =>
      ∃ index, program.StopsAt last run (.loadInput index) ∧
        program.inputMode.resolve? inputs.length index = none

end

variable {program : Program} {inputs : List Word}

theorem Reaches.inside {config : Config} (reached : program.Reaches inputs config) :
    config.pc ≤ program.length := by
  induction reached with
  | start => exact Nat.zero_le _
  | next before after _ _ went _ => exact (step_next before after went).pc

/-- By induction on the steps that are left, since each step reaches one more configuration. -/
theorem stop_from_concludes (remaining : Nat) (config : Config)
    (reached : program.Reaches inputs config)
    (left : config.steps + remaining = program.budget) :
    ∃ last, program.Reaches inputs last ∧
      program.Concludes inputs last (program.stopFrom inputs remaining config) := by
  induction remaining generalizing config with
  | zero => exact ⟨config, reached, Or.inl ⟨left, rfl⟩⟩
  | succ remaining ih =>
      have allowed : config.steps < program.budget := by omega
      rw [stopFrom]
      cases stepped : program.step inputs config with
      | next after =>
          have counted := (step_next config after stepped).steps
          apply ih after (.next config after reached allowed stepped)
          omega
      | done stop => exact ⟨config, reached, Or.inr ⟨allowed, stepped⟩⟩

theorem stop_concludes (program : Program) (inputs : List Word) :
    ∃ last, program.Reaches inputs last ∧
      program.Concludes inputs last (program.stop inputs) :=
  stop_from_concludes program.budget .start .start (Nat.zero_add _)

theorem explains_of_ends {last : Config} {instr : Instr} {result : Result}
    (found : program.code[last.pc]? = some instr)
    (ends : program.Ends inputs instr last.stack result) :
    (result.status = .ok ∨ result.value = 0) ∧
      program.Explains inputs last ⟨result, last.steps + 1, last.pc⟩ := by
  obtain ⟨pc, stack, steps⟩ := last
  have stops : program.StopsAt ⟨pc, stack, steps⟩ ⟨result, steps + 1, pc⟩ instr := ⟨found, rfl⟩
  cases ends with
  | halted =>
      cases stack with
      | nil => exact ⟨Or.inr rfl, Or.inl stops, rfl⟩
      | cons top stack => exact ⟨Or.inl rfl, Or.inl stops, rfl⟩
  | shallow _ _ few => exact ⟨Or.inr rfl, instr, stops, few⟩
  | lost _ target _ taken unresolved =>
      obtain ⟨mode, outside⟩ := JumpMode.resolve_none program.length_ne_zero unresolved
      exact ⟨Or.inr rfl, instr, target, stops, taken, mode, outside⟩
  | divided op right left stack undefined =>
      obtain ⟨divides, rfl⟩ := (op.eval_none_iff left right).mp undefined
      refine ⟨Or.inr rfl, ?_, Nat.le_add_left 2 stack.length, rfl⟩
      rcases divides with rfl | rfl
      · exact Or.inl stops
      · exact Or.inr stops
  | starved index _ missing =>
      have unresolved := (program.inputMode.fetch_none_iff inputs index).mp missing
      exact ⟨Or.inr rfl, index, stops, unresolved⟩

theorem explains_of_past {last : Config} (reached : program.Reaches inputs last)
    (allowed : last.steps < program.budget) (missing : program.code[last.pc]? = none) :
    ((Result.halt last.stack).status = .ok ∨ (Result.halt last.stack).value = 0) ∧
      program.Explains inputs last ⟨.halt last.stack, last.steps, last.pc⟩ := by
  have past : last.pc = program.length :=
    Nat.le_antisymm reached.inside (List.getElem?_eq_none_iff.mp missing)
  have halts : program.Halts last ⟨.halt last.stack, last.steps, last.pc⟩ :=
    Or.inr ⟨past, rfl, allowed⟩
  obtain ⟨pc, stack, steps⟩ := last
  cases stack with
  | nil => exact ⟨Or.inr rfl, halts, rfl⟩
  | cons top stack => exact ⟨Or.inl rfl, halts, rfl⟩

theorem concludes_explains {last : Config} {stop : Stop} (reached : program.Reaches inputs last)
    (concludes : program.Concludes inputs last stop) :
    last.pc = stop.config.pc ∧ last.stack = stop.config.stack ∧
      (stop.result.status = .ok ∨ stop.result.value = 0) ∧
      program.Explains inputs last stop.run := by
  rcases concludes with ⟨spent, rfl⟩ | ⟨allowed, ended⟩
  · exact ⟨rfl, rfl, Or.inr rfl, spent, rfl⟩
  · rcases step_ends last stop ended with ⟨missing, rfl⟩ | ⟨instr, found, same, ends⟩
    · exact ⟨rfl, rfl, explains_of_past reached allowed missing⟩
    · rw [Stop.run, same]
      exact ⟨rfl, rfl, explains_of_ends found ends⟩

theorem run_explains (program : Program) (inputs : List Word) :
    ∃ last, program.Explains inputs last (program.run inputs) := by
  obtain ⟨last, reached, concludes⟩ := program.stop_concludes inputs
  exact ⟨last, (concludes_explains reached concludes).2.2.2⟩

theorem mode_of_bad_jump (bad : (program.run inputs).result.status = .badJumpTarget) :
    program.jumpMode = .error := by
  obtain ⟨last, explains⟩ := program.run_explains inputs
  rw [Explains, bad] at explains
  obtain ⟨_, _, _, _, mode, _⟩ := explains
  exact mode

theorem index_of_invalid (invalid : (program.run inputs).result.status = .invalidInputIndex) :
    ∃ index, program.inputMode.resolve? inputs.length index = none := by
  obtain ⟨last, explains⟩ := program.run_explains inputs
  rw [Explains, invalid] at explains
  obtain ⟨index, _, unresolved⟩ := explains
  exact ⟨index, unresolved⟩

/-- Every status is explained by where the run stopped: by the last configuration that it reached,
whose position is the final one and whose stack is the one that a failing instruction found. A
status other than `ok` comes with the value zero. -/
theorem status_explained (program : Program) (inputs : List Word) :
    ∃ last, program.Reaches inputs last ∧
      last.pc = (program.run inputs).finalPc ∧
      last.stack = (program.stop inputs).config.stack ∧
      ((program.run inputs).result.status = .ok ∨ (program.run inputs).result.value = 0) ∧
      program.Explains inputs last (program.run inputs) := by
  obtain ⟨last, reached, concludes⟩ := program.stop_concludes inputs
  exact ⟨last, reached, concludes_explains reached concludes⟩

end Program

end StackMachine

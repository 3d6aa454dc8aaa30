import StackMachine.Proofs.Machine.Budget
import StackMachine.Proofs.Machine.Engine

/-!
# What lies beneath the stack

No instruction looks below the entries that its opcode requires. So a run goes the same way over any
further entries, and only a run that missed some of them may go another: one that found too few for
an instruction, or none to answer with. The table of required depths says exactly where the first of
these happens.
-/

namespace StackMachine

set_option autoImplicit false

/-- The same configuration with these entries beneath its stack. -/
def Config.over (config : Config) (beneath : List Word) : Config :=
  { config with stack := config.stack ++ beneath }

def Stop.over (stop : Stop) (beneath : List Word) : Stop :=
  { stop with config := stop.config.over beneath }

@[simp]
theorem Stop.run_over (stop : Stop) (beneath : List Word) : (stop.over beneath).run = stop.run := rfl

/-- No entry was missing where the run ended so. -/
def Status.Fed (status : Status) : Prop :=
  status ≠ .stackUnderflow ∧ status ≠ .emptyStackOnHalt

theorem Instr.taken_over {instr : Instr} {stack : List Word} {target : Word}
    (taken : instr.taken? stack = some target) (beneath : List Word) :
    instr.taken? (stack ++ beneath) = some target := by
  cases instr with
  | jump other => exact taken
  | branch condition other =>
      cases stack with
      | nil => cases taken
      | cons value stack => exact taken
  | halt | pushConst _ | loadInput _ | binary _ | unary _ | stack _ => cases taken

theorem Result.halt_over {stack : List Word} (fed : (Result.halt stack).status.Fed)
    (beneath : List Word) : Result.halt (stack ++ beneath) = Result.halt stack := by
  cases stack with
  | nil => exact absurd rfl fed.2
  | cons top stack => rfl

namespace Program

variable {program : Program} {inputs : List Word}

section

variable {instr : Instr} {pc next : Nat} {stack left : List Word} {result : Result}

theorem Moves.over (moves : program.Moves inputs instr pc stack next left) (beneath : List Word) :
    program.Moves inputs instr pc (stack ++ beneath) next (left ++ beneath) := by
  cases moves with
  | pushConst value => exact .pushConst value pc _
  | loadInput index value _ _ fetched => exact .loadInput index value pc _ fetched
  | binary op right left value _ _ evaluated => exact .binary op right left value pc _ evaluated
  | unary op value => exact .unary op value pc _
  | dup value => exact .dup value pc _
  | swap upper lower => exact .swap upper lower pc _
  | pop value => exact .pop value pc _
  | jump target _ _ _ resolved => exact .jump target pc next _ resolved
  | taken condition target value _ _ _ holds resolved =>
      exact .taken condition target value pc next _ holds resolved
  | passed condition target value _ _ fails => exact .passed condition target value pc _ fails

theorem Ends.over (ends : program.Ends inputs instr stack result) (fed : result.status.Fed)
    (beneath : List Word) : program.Ends inputs instr (stack ++ beneath) result := by
  cases ends with
  | halted =>
      rw [← Result.halt_over fed beneath]
      exact .halted _
  | shallow => exact absurd rfl fed.1
  | lost _ target _ taken unresolved =>
      exact .lost instr target _ (Instr.taken_over taken beneath) unresolved
  | divided op right left _ undefined => exact .divided op right left _ undefined
  | starved index _ missing => exact .starved index _ missing

end

theorem step_next_over {config after : Config} (went : program.step inputs config = .next after)
    (beneath : List Word) :
    program.step inputs (config.over beneath) = .next (after.over beneath) := by
  obtain ⟨instr, found, moves, counted⟩ := step_moves config after went
  have found : program.code[(config.over beneath).pc]? = some instr := found
  rw [step, found]
  change _ = Transition.next ⟨after.pc, after.stack ++ beneath, after.steps⟩
  rw [counted]
  exact (moves.over beneath).execute (config.steps + 1)

theorem step_done_over {config : Config} {stop : Stop}
    (ended : program.step inputs config = .done stop) (fed : stop.result.status.Fed)
    (beneath : List Word) :
    program.step inputs (config.over beneath) = .done (stop.over beneath) := by
  rcases step_ends config stop ended with ⟨missing, rfl⟩ | ⟨instr, found, same, ends⟩
  · have missing : program.code[(config.over beneath).pc]? = none := missing
    have answer : Result.halt (config.over beneath).stack = Result.halt config.stack :=
      Result.halt_over fed beneath
    rw [step, missing]
    change Transition.done ⟨_, Result.halt (config.over beneath).stack⟩ = _
    rw [answer]
    rfl
  · have found : program.code[(config.over beneath).pc]? = some instr := found
    obtain ⟨last, result⟩ := stop
    obtain rfl : last = { config with steps := config.steps + 1 } := same
    rw [step, found]
    exact (ends.over fed beneath).execute config.pc (config.steps + 1)

/-- By induction on the steps that are left. The two runs go in lock-step, and the stack of the one
keeps the entries beneath that of the other. -/
theorem stop_from_over (remaining : Nat) (config : Config) (beneath : List Word)
    (fed : (program.stopFrom inputs remaining config).result.status.Fed) :
    program.stopFrom inputs remaining (config.over beneath) =
      (program.stopFrom inputs remaining config).over beneath := by
  induction remaining generalizing config with
  | zero => rfl
  | succ remaining ih =>
      cases stepped : program.step inputs config with
      | next after =>
          rw [stop_from_next stepped] at fed ⊢
          rw [stop_from_next (step_next_over stepped beneath)]
          exact ih after fed
      | done stop =>
          rw [stop_from_done stepped] at fed ⊢
          exact stop_from_done (step_done_over stepped fed beneath) remaining

/-- The run from any configuration on, which goes on while the steps are below the budget. -/
def runFrom (program : Program) (inputs : List Word) (config : Config) : Run :=
  (program.stopFrom inputs (program.budget - config.steps) config).run

theorem run_from_start : program.runFrom inputs .start = program.run inputs := rfl

theorem run_from_spent {config : Config} (spent : program.budget ≤ config.steps) :
    program.runFrom inputs config = ⟨.fault .stepLimit, config.steps, config.pc⟩ := by
  rw [runFrom, Nat.sub_eq_zero_of_le spent]
  rfl

theorem run_from_turn {config : Config} (allowed : config.steps < program.budget) :
    program.runFrom inputs config =
      match program.step inputs config with
      | .next after => program.runFrom inputs after
      | .done stop => stop.run := by
  obtain ⟨left, budget⟩ : ∃ left, program.budget - config.steps = left + 1 :=
    Nat.exists_eq_add_one.mpr (Nat.sub_pos_of_lt allowed)
  rw [runFrom, budget]
  cases stepped : program.step inputs config with
  | next after =>
      have counted := (step_next config after stepped).steps
      have later : program.budget - after.steps = left := by omega
      rw [stop_from_next stepped, ← later]
      rfl
  | done stop => rw [stop_from_done stepped]

theorem run_from_over (config : Config) (beneath : List Word)
    (fed : (program.runFrom inputs config).result.status.Fed) :
    program.runFrom inputs (config.over beneath) = program.runFrom inputs config := by
  change (program.stopFrom inputs (program.budget - config.steps) (config.over beneath)).run = _
  rw [stop_from_over _ config beneath fed, Stop.run_over]
  rfl

/-- The depth that the opcode requires is the least one at which the instruction does not underflow:
in the machine, and in the engine that looks this depth up and then pops without a check. -/
structure HasDepth (program : Program) (inputs : List Word) (instr : Instr) : Prop where
  shallow : ∀ config : Config, config.stack.length < instr.opcode.requiredDepth →
    program.execute inputs instr config = config.finish (.fault .stackUnderflow) ∧
    Engine.execute? program inputs instr (.of config) =
      Engine.stops (.of config) (.fault .stackUnderflow)
  deep : ∀ config : Config, instr.opcode.requiredDepth ≤ config.stack.length →
    (∀ stop, program.execute inputs instr config = .done stop →
      stop.result.status ≠ .stackUnderflow) ∧
    ∃ outcome, Engine.execute? program inputs instr (.of config) = some outcome ∧
      ∀ result ∈ outcome.result, result.status ≠ .stackUnderflow

/-- With the entries that it requires an instruction ends the run for another reason, if it does. -/
theorem Ends.deep {instr : Instr} {stack : List Word} {result : Result}
    (ends : program.Ends inputs instr stack result)
    (deep : instr.opcode.requiredDepth ≤ stack.length) : result.status ≠ .stackUnderflow := by
  cases ends with
  | halted => cases stack <;> exact Status.noConfusion
  | shallow _ _ few => exact absurd deep (Nat.not_le.mpr few)
  | lost | divided | starved => exact Status.noConfusion

theorem execute_deep {instr : Instr} {config : Config} {stop : Stop}
    (deep : instr.opcode.requiredDepth ≤ config.stack.length)
    (executed : program.execute inputs instr config = .done stop) :
    stop.result.status ≠ .stackUnderflow :=
  (execute_done instr config stop executed).2.deep deep

theorem engine_shallow (instr : Instr) (config : Config)
    (few : config.stack.length < instr.opcode.requiredDepth) :
    Engine.execute? program inputs instr (.of config) =
      Engine.stops (.of config) (.fault .stackUnderflow) := by
  have depth : (Engine.State.of config).stack.length = config.stack.length := List.length_reverse
  rw [Engine.execute?, if_pos (by rwa [depth])]

/-- The engine has an outcome, since none of its pops is undefined, and it is the one of the
machine. -/
theorem engine_deep (instr : Instr) (config : Config)
    (deep : instr.opcode.requiredDepth ≤ config.stack.length) :
    ∃ outcome, Engine.execute? program inputs instr (.of config) = some outcome ∧
      ∀ result ∈ outcome.result, result.status ≠ .stackUnderflow := by
  have agrees : Engine.Agrees (Engine.execute? program inputs instr (.of config))
      (program.execute inputs instr config) := Engine.execute_agrees instr config
  cases executed : program.execute inputs instr config with
  | next after =>
      rw [executed, Engine.Agrees] at agrees
      refine ⟨_, agrees, ?_⟩
      intro result given
      cases given
  | done stop =>
      rw [executed, Engine.Agrees] at agrees
      obtain ⟨state, stopped, -⟩ := agrees
      refine ⟨_, stopped, ?_⟩
      intro result given
      obtain rfl := Option.some.inj given
      exact execute_deep deep executed

theorem has_depth (program : Program) (inputs : List Word) (instr : Instr) :
    program.HasDepth inputs instr where
  shallow config few := ⟨execute_shallow instr few, engine_shallow instr config few⟩
  deep config deep := ⟨fun _ executed => execute_deep deep executed, engine_deep instr config deep⟩

/-- Runs are framed. From any position, step count and stack, a run that did not miss an entry is the
same run over any further ones; and an instruction misses one exactly where its stack has fewer
than its opcode requires. -/
theorem runs_are_framed (program : Program) (inputs : List Word) :
    (∀ (start : Config) (beneath : List Word),
      (program.runFrom inputs start).result.status ≠ .stackUnderflow →
      (program.runFrom inputs start).result.status ≠ .emptyStackOnHalt →
      program.runFrom inputs (start.over beneath) = program.runFrom inputs start) ∧
    ∀ instr : Instr, program.HasDepth inputs instr := by
  constructor
  · intro start beneath found answered
    exact run_from_over start beneath ⟨found, answered⟩
  · exact program.has_depth inputs

def lessThanSquare : Program where
  code := [.stack .dup, .binary .mul, .pushConst 1, .binary .sub, .halt]
  maxSteps := 16
  jumpMode := .error
  inputMode := .direct
  halts := by decide
  positive := by decide

theorem runs_are_framed_inside_code :
    (lessThanSquare.runFrom [] ⟨1, [3, 4], 6⟩).result.status ≠ .stackUnderflow ∧
      (lessThanSquare.runFrom [] ⟨1, [3, 4], 6⟩).result.status ≠ .emptyStackOnHalt ∧
      lessThanSquare.runFrom [] ⟨1, [3, 4, 7, 9], 6⟩ = ⟨⟨.ok, 11⟩, 10, 4⟩ ∧
      lessThanSquare.execute [] (.binary .mul) ⟨1, [3], 7⟩ =
        .done ⟨⟨1, [3], 7⟩, .fault .stackUnderflow⟩ := by
  have run : lessThanSquare.runFrom [] ⟨1, [3, 4], 6⟩ = ⟨⟨.ok, 11⟩, 10, 4⟩ := by decide
  have found : (lessThanSquare.runFrom [] ⟨1, [3, 4], 6⟩).result.status ≠ .stackUnderflow := by
    rw [run]
    decide
  have answered : (lessThanSquare.runFrom [] ⟨1, [3, 4], 6⟩).result.status ≠
      .emptyStackOnHalt := by
    rw [run]
    decide
  obtain ⟨framed, depths⟩ := runs_are_framed lessThanSquare []
  have same := framed ⟨1, [3, 4], 6⟩ [7, 9] found answered
  have shallow := (depths (.binary .mul)).shallow ⟨1, [3], 7⟩ (by decide)
  exact ⟨found, answered, same.trans run, shallow.1⟩

end Program

end StackMachine

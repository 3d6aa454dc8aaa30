import StackMachine.Proofs.Machine.Step

/-!
# The budget is a threshold

A run is the same under every budget that lets it come to its own end, and under a smaller one it
stops at the limit with all of the budget used. The least budget that is enough is the number of
steps, and one more where the run ends past the last instruction: that end counts no step, but it
has to be reached before the budget is spent.
-/

namespace StackMachine

set_option autoImplicit false

/-- The run stopped for want of budget, which was this number of steps. -/
def Run.Exhausts (run : Run) (budget : Nat) : Prop :=
  run.result = .fault .stepLimit ∧ run.steps = budget

namespace Program

variable {program : Program} {inputs : List Word}

/-- The least budget under which a run can come to this end. -/
def threshold (program : Program) (run : Run) : Nat :=
  if run.finalPc < program.length then run.steps else run.steps + 1

theorem stop_from_next {config after : Config} (went : program.step inputs config = .next after)
    (budget : Nat) :
    program.stopFrom inputs (budget + 1) config = program.stopFrom inputs budget after := by
  rw [stopFrom, went]

theorem stop_from_done {config : Config} {stop : Stop}
    (ended : program.step inputs config = .done stop) (budget : Nat) :
    program.stopFrom inputs (budget + 1) config = stop := by
  rw [stopFrom, ended]

section

variable {instr : Instr} {pc next : Nat} {stack left : List Word} {result : Result}

theorem stop_from_moves (found : program.code[pc]? = some instr)
    (moves : program.Moves inputs instr pc stack next left) (steps budget : Nat) :
    program.stopFrom inputs (budget + 1) ⟨pc, stack, steps⟩ =
      program.stopFrom inputs budget ⟨next, left, steps + 1⟩ := by
  apply stop_from_next
  rw [step, found]
  exact moves.execute (steps + 1)

theorem stop_from_ends (found : program.code[pc]? = some instr)
    (ends : program.Ends inputs instr stack result) (steps budget : Nat) :
    program.stopFrom inputs (budget + 1) ⟨pc, stack, steps⟩ = ⟨⟨pc, stack, steps + 1⟩, result⟩ := by
  apply stop_from_done
  rw [step, found]
  exact ends.execute pc (steps + 1)

/-- Positions and stacks among which the code can always move on use up every budget. -/
theorem stop_from_endless (among : Nat → List Word → Prop)
    (onward : ∀ pc stack, among pc stack → ∃ instr next left,
      program.code[pc]? = some instr ∧ program.Moves inputs instr pc stack next left ∧
        among next left)
    (budget steps : Nat) (within : among pc stack) :
    (program.stopFrom inputs budget ⟨pc, stack, steps⟩).result = .fault .stepLimit := by
  induction budget generalizing pc stack steps with
  | zero => rfl
  | succ budget ih =>
      obtain ⟨instr, next, left, found, moves, still⟩ := onward pc stack within
      rw [stop_from_moves found moves]
      exact ih (steps + 1) still

end

theorem stop_from_pc (budget : Nat) (config : Config) (inside : config.pc ≤ program.length) :
    (program.stopFrom inputs budget config).config.pc ≤ program.length := by
  induction budget generalizing config with
  | zero => exact inside
  | succ budget ih =>
      cases stepped : program.step inputs config with
      | next after =>
          rw [stop_from_next stepped]
          exact ih after (step_next config after stepped).pc
      | done stop =>
          rw [stop_from_done stepped, (step_done config stop stepped).2.1]
          exact inside

theorem threshold_of_done {config : Config} {stop : Stop}
    (ended : program.step inputs config = .done stop) :
    program.threshold stop.run = config.steps + 1 := by
  obtain ⟨-, pc, steps⟩ := step_done config stop ended
  rw [threshold, Stop.run, pc, steps]
  by_cases inside : config.pc < program.length
  · rw [if_pos inside, if_pos inside]
  · rw [if_neg inside, if_neg inside]

/-- Budgets are counted from the configuration here. The runs under two budgets take the same steps
until the smaller one is spent, so one induction compares a run with all others. -/
theorem stop_from_threshold (budget : Nat) (config : Config)
    (early : (program.stopFrom inputs budget config).result.status ≠ .stepLimit) :
    ∃ enough ≤ budget,
      program.threshold (program.stopFrom inputs budget config).run = config.steps + enough ∧
      (∀ other, enough ≤ other →
        program.stopFrom inputs other config = program.stopFrom inputs budget config) ∧
      ∀ other, other < enough →
        (program.stopFrom inputs other config).run.Exhausts (config.steps + other) := by
  induction budget generalizing config with
  | zero => exact absurd rfl early
  | succ budget ih =>
      cases stepped : program.step inputs config with
      | next after =>
          have counted := (step_next config after stepped).steps
          rw [stop_from_next stepped] at early ⊢
          obtain ⟨enough, within, needed, same, short⟩ := ih after early
          refine ⟨enough + 1, Nat.succ_le_succ within, by omega, ?_, ?_⟩
          · intro other large
            cases other with
            | zero => exact absurd large (Nat.not_succ_le_zero enough)
            | succ other =>
                rw [stop_from_next stepped]
                exact same other (Nat.le_of_succ_le_succ large)
          · intro other small
            cases other with
            | zero => exact ⟨rfl, rfl⟩
            | succ other =>
                have spent := short other (Nat.lt_of_succ_lt_succ small)
                have moved : after.steps + other = config.steps + (other + 1) := by omega
                rw [stop_from_next stepped, ← moved]
                exact spent
      | done stop =>
          rw [stop_from_done stepped]
          refine ⟨1, Nat.succ_le_succ (Nat.zero_le budget), threshold_of_done stepped, ?_, ?_⟩
          · intro other large
            cases other with
            | zero => exact absurd large (Nat.not_succ_le_zero 0)
            | succ other => exact stop_from_done stepped other
          · intro other small
            obtain rfl := Nat.lt_one_iff.mp small
            exact ⟨rfl, rfl⟩

theorem stop_from_limit (budget : Nat) (config : Config)
    (late : (program.stopFrom inputs budget config).result.status = .stepLimit) :
    (program.stopFrom inputs budget config).run.Exhausts (config.steps + budget) := by
  induction budget generalizing config with
  | zero => exact ⟨rfl, rfl⟩
  | succ budget ih =>
      cases stepped : program.step inputs config with
      | next after =>
          have counted := (step_next config after stepped).steps
          have moved : after.steps + budget = config.steps + (budget + 1) := by omega
          rw [stop_from_next stepped] at late ⊢
          rw [← moved]
          exact ih after late
      | done stop =>
          rw [stop_from_done stepped] at late
          exact absurd late (step_done config stop stepped).1

/-- The run of the same code under another budget. -/
def runWithin (program : Program) (inputs : List Word) (maxSteps : Word) (positive : 1 ≤ maxSteps) :
    Run :=
  (program.withMaxSteps maxSteps positive).run inputs

/-- The budget is looked at by nothing but the loop. -/
theorem step_with_max_steps (maxSteps : Word) (positive : 1 ≤ maxSteps) (config : Config) :
    (program.withMaxSteps maxSteps positive).step inputs config = program.step inputs config := rfl

theorem stop_from_with_max_steps (maxSteps : Word) (positive : 1 ≤ maxSteps) (budget : Nat)
    (config : Config) :
    (program.withMaxSteps maxSteps positive).stopFrom inputs budget config =
      program.stopFrom inputs budget config := by
  induction budget generalizing config with
  | zero => rfl
  | succ budget ih =>
      rw [stopFrom, stopFrom, step_with_max_steps]
      cases program.step inputs config with
      | next after => exact ih after
      | done stop => rfl

theorem run_within (maxSteps : Word) (positive : 1 ≤ maxSteps) :
    program.runWithin inputs maxSteps positive =
      (program.stopFrom inputs maxSteps.toInt.toNat .start).run := by
  rw [runWithin, run, stop, stop_from_with_max_steps]
  rfl

/-- Either the run stops at the limit under every budget, or it has one end of its own: every budget
from the threshold of that end on leads to it, and every smaller one is used up. Some word is a
budget that is enough. -/
theorem run_within_threshold (program : Program) (inputs : List Word) :
    (∀ (maxSteps : Word) (positive : 1 ≤ maxSteps),
      (program.runWithin inputs maxSteps positive).Exhausts maxSteps.toInt.toNat) ∨
    ∃ run : Run, run.result.status ≠ .stepLimit ∧ run.finalPc ≤ program.length ∧
      program.threshold run ≤ Int64.maxValue.toInt.toNat ∧
      ∀ (maxSteps : Word) (positive : 1 ≤ maxSteps),
        (program.threshold run ≤ maxSteps.toInt.toNat →
          program.runWithin inputs maxSteps positive = run) ∧
        (maxSteps.toInt.toNat < program.threshold run →
          (program.runWithin inputs maxSteps positive).Exhausts maxSteps.toInt.toNat) := by
  have begun : Config.start.steps = 0 := rfl
  by_cases endless : ∀ (maxSteps : Word) (positive : 1 ≤ maxSteps),
      (program.runWithin inputs maxSteps positive).result.status = .stepLimit
  · left
    intro maxSteps positive
    have late := endless maxSteps positive
    rw [run_within] at late ⊢
    have spent := stop_from_limit _ _ late
    rwa [begun, Nat.zero_add] at spent
  · right
    obtain ⟨allowed, endless⟩ := Classical.not_forall.mp endless
    obtain ⟨positive, early⟩ := Classical.not_forall.mp endless
    rw [run_within] at early
    obtain ⟨enough, within, needed, same, short⟩ := stop_from_threshold _ _ early
    rw [begun, Nat.zero_add] at needed
    have greatest : allowed.toInt ≤ Int64.maxValue.toInt := allowed.toInt_le
    refine ⟨_, early, stop_from_pc _ _ (Nat.zero_le _), by omega, ?_⟩
    intro maxSteps _
    rw [run_within, needed]
    constructor
    · intro large
      rw [same _ large]
    · intro small
      have spent := short _ small
      rwa [begun, Nat.zero_add] at spent

end Program

end StackMachine

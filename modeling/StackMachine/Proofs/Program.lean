import Mathlib.Algebra.Group.Nat.Defs
import StackMachine.Program

/-!
# What every program has

A program has an instruction, and a budget of at least one step that is no more than a word counts.
-/

namespace StackMachine.Program

set_option autoImplicit false

variable (program : Program)

theorem length_ne_zero : program.length ≠ 0 :=
  Nat.ne_of_gt (List.length_pos_of_mem program.halts)

theorem max_steps_positive : 1 ≤ program.maxSteps.toInt :=
  Int64.le_iff_toInt_le.mp program.positive

theorem budget_is : (program.budget : Int) = program.maxSteps.toInt := by
  have positive := program.max_steps_positive
  rw [budget]
  omega

theorem budget_lt : program.budget < 2 ^ 63 := by
  have upper : program.maxSteps.toInt ≤ Int64.maxValue.toInt := program.maxSteps.toInt_le
  have greatest : Int64.maxValue.toInt = 2 ^ 63 - 1 := rfl
  have budget := program.budget_is
  omega

end StackMachine.Program

import StackMachine.Proofs.Machine.Ending

/-!
# Runs that agree while nothing is refused

Two machines with the same code take the same steps as long as they resolve the same targets and
fetch the same inputs. A lenient mode, and more inputs, change nothing but what would have been
refused. So a run that is not refused is kept as a whole.
-/

namespace StackMachine

set_option autoImplicit false

namespace Program

def withJumpMode (program : Program) (mode : JumpMode) : Program :=
  { program with jumpMode := mode }

def withInputMode (program : Program) (mode : InputMode) : Program :=
  { program with inputMode := mode }

/-- The lenient machine resolves and fetches what the strict one does, except where the strict one
refuses and the status of that refusal is among the given ones. -/
structure Extends (refused : Status → Prop) (strict : Program) (few : List Word)
    (lenient : Program) (more : List Word) : Prop where
  code : lenient.code = strict.code
  maxSteps : lenient.maxSteps = strict.maxSteps
  jump : ∀ target,
    lenient.jumpMode.resolve? strict.length target =
        strict.jumpMode.resolve? strict.length target ∨
      (strict.jumpMode.resolve? strict.length target = none ∧ refused .badJumpTarget)
  load : ∀ index,
    lenient.inputMode.fetch? more index = strict.inputMode.fetch? few index ∨
      (strict.inputMode.fetch? few index = none ∧ refused .invalidInputIndex)

/-- The lenient transition is the strict one, or the strict one ends the run with a refusal. -/
def Keeps (refused : Status → Prop) (strict lenient : Transition) : Prop :=
  lenient = strict ∨ ∃ stop, strict = .done stop ∧ refused stop.result.status

namespace Extends

variable {refused : Status → Prop} {strict lenient : Program} {few more : List Word}

theorem take_jump (extension : Extends refused strict few lenient more) (target : Word)
    (config : Config) (stack : List Word) :
    Keeps refused (strict.takeJump target config stack) (lenient.takeJump target config stack) := by
  have length : lenient.length = strict.length := congrArg List.length extension.code
  unfold takeJump
  rcases extension.jump target with same | ⟨unresolved, refuses⟩
  · left
    rw [length, same]
  · right
    rw [unresolved]
    exact ⟨_, rfl, refuses⟩

/-- Only jumps and loads look at what the two machines may differ in. -/
theorem execute (extension : Extends refused strict few lenient more) (instr : Instr)
    (config : Config) :
    Keeps refused (strict.execute few instr config) (lenient.execute more instr config) := by
  cases instr with
  | loadInput index =>
      rw [execute_load, execute_load]
      rcases extension.load index with same | ⟨missing, refuses⟩
      · left
        rw [same]
      · right
        rw [missing]
        exact ⟨_, rfl, refuses⟩
  | jump target => exact extension.take_jump target config config.stack
  | branch condition target =>
      by_cases empty : config.stack = []
      · left
        unfold Program.execute
        simp only [empty]
      · obtain ⟨value, stack, shape⟩ := List.exists_cons_of_ne_nil empty
        rw [execute_branch condition target shape, execute_branch condition target shape]
        split
        · exact extension.take_jump target config stack
        · exact Or.inl rfl
  | halt | pushConst _ => exact Or.inl rfl
  | binary _ | unary _ =>
      left
      unfold Program.execute
      rcases config.stack with _ | ⟨_, _ | ⟨_, _⟩⟩ <;> rfl
  | stack op =>
      left
      unfold Program.execute
      rcases config.stack with _ | ⟨_, _ | ⟨_, _⟩⟩ <;> cases op <;> rfl

theorem step (extension : Extends refused strict few lenient more) (config : Config) :
    Keeps refused (strict.step few config) (lenient.step more config) := by
  unfold Program.step
  rw [extension.code]
  cases strict.code[config.pc]? with
  | none => exact Or.inl rfl
  | some instr => exact extension.execute instr _

theorem stop_from (extension : Extends refused strict few lenient more) (remaining : Nat)
    (config : Config)
    (accepted : ¬refused (strict.stopFrom few remaining config).result.status) :
    lenient.stopFrom more remaining config = strict.stopFrom few remaining config := by
  induction remaining generalizing config with
  | zero => rfl
  | succ remaining ih =>
      rw [stopFrom] at accepted ⊢
      rcases extension.step config with same | ⟨stop, ended, refuses⟩
      · rw [stopFrom, same]
        cases stepped : strict.step few config with
        | next after =>
            rw [stepped] at accepted
            exact ih after accepted
        | done stop => rfl
      · rw [ended] at accepted
        exact absurd refuses accepted

theorem run (extension : Extends refused strict few lenient more)
    (accepted : ¬refused (strict.run few).result.status) : lenient.run more = strict.run few := by
  have budget : lenient.budget = strict.budget :=
    congrArg (fun maxSteps : Word => maxSteps.toInt.toNat) extension.maxSteps
  rw [Program.run, Program.run, Program.stop, Program.stop, budget]
  rw [extension.stop_from strict.budget .start accepted]

end Extends

variable (program : Program) (inputs : List Word)

theorem jump_mode_extends (mode : JumpMode) :
    Extends (· = .badJumpTarget) (program.withJumpMode .error) inputs
      (program.withJumpMode mode) inputs where
  code := rfl
  maxSteps := rfl
  jump := by
    intro target
    exact (mode.resolve_of_error program.length target).imp_right fun unresolved =>
      ⟨unresolved, rfl⟩
  load := fun _ => Or.inl rfl

theorem input_mode_extends (mode : InputMode) :
    Extends (· = .invalidInputIndex) (program.withInputMode .direct) inputs
      (program.withInputMode mode) inputs where
  code := rfl
  maxSteps := rfl
  jump := fun _ => Or.inl rfl
  load := by
    intro index
    exact (mode.fetch_of_direct inputs index).imp_right fun missing => ⟨missing, rfl⟩

theorem more_inputs_extend (direct : program.inputMode = .direct) (more : List Word) :
    Extends (· = .invalidInputIndex) program inputs program (inputs ++ more) where
  code := rfl
  maxSteps := rfl
  jump := fun _ => Or.inl rfl
  load := by
    intro index
    rw [direct]
    exact (InputMode.fetch_direct_append inputs more index).imp_right fun missing => ⟨missing, rfl⟩

/-- Nothing is refused here, neither way: repeated inputs are read alike everywhere. -/
theorem repeated_inputs_extend (cyclic : program.inputMode = .cyclic) (count : Nat)
    (positive : 1 ≤ count) :
    Extends (fun _ => False) program inputs program (List.replicate count inputs).flatten where
  code := rfl
  maxSteps := rfl
  jump := fun _ => Or.inl rfl
  load := by
    intro index
    rw [cyclic]
    exact Or.inl (InputMode.fetch_cyclic_repeated count positive inputs index)

/-- The lenient modes extend the strict ones. A run in the mode that refuses targets, if it was not
ended by that, is the run in every mode; and so for the mode that refuses indexes. The lenient modes
themselves never refuse, but for an index where there are no inputs at all. -/
theorem lenient_modes_extend (program : Program) (inputs : List Word) :
    (((program.withJumpMode .error).run inputs).result.status ≠ .badJumpTarget →
      ∀ mode, (program.withJumpMode mode).run inputs = (program.withJumpMode .error).run inputs) ∧
    (((program.withInputMode .direct).run inputs).result.status ≠ .invalidInputIndex →
      ∀ mode,
        (program.withInputMode mode).run inputs = (program.withInputMode .direct).run inputs) ∧
    (∀ mode, mode ≠ .error →
      ((program.withJumpMode mode).run inputs).result.status ≠ .badJumpTarget) ∧
    (inputs ≠ [] →
      ((program.withInputMode .cyclic).run inputs).result.status ≠ .invalidInputIndex) := by
  refine ⟨?_, ?_, ?_, ?_⟩
  · intro accepted mode
    exact (program.jump_mode_extends inputs mode).run accepted
  · intro accepted mode
    exact (program.input_mode_extends inputs mode).run accepted
  · intro mode lenient bad
    exact lenient (mode_of_bad_jump bad)
  · intro nonempty invalid
    obtain ⟨index, unresolved⟩ := index_of_invalid invalid
    obtain ⟨_, _, _, _, fetched⟩ := InputMode.fetch_cyclic index nonempty
    rw [← InputMode.fetch_none_iff] at unresolved
    rw [show (program.withInputMode .cyclic).inputMode = .cyclic from rfl, fetched] at unresolved
    cases unresolved

/-- Counts the second input down in a loop and answers with the first. The last branch, whose target
is outside the code, is never taken. -/
def countdown : Program where
  code := [.loadInput 1, .pushConst (-1), .binary .add, .stack .dup, .branch .ifNonzero 1,
    .pushConst 1, .branch .ifZero 99, .loadInput 0, .halt]
  maxSteps := 32
  jumpMode := .error
  inputMode := .direct
  halts := by decide
  positive := by decide

theorem lenient_modes_extend_countdown :
    ((countdown.withJumpMode .error).run [5, 3]).result.status ≠ .badJumpTarget ∧
      ((countdown.withInputMode .direct).run [5, 3]).result.status ≠ .invalidInputIndex ∧
      (∀ mode, (countdown.withJumpMode mode).run [5, 3] = ⟨⟨.ok, 5⟩, 17, 8⟩) ∧
      (∀ mode, (countdown.withInputMode mode).run [5, 3] = ⟨⟨.ok, 5⟩, 17, 8⟩) ∧
      ((countdown.withJumpMode .clamp).run [5, 3]).result.status ≠ .badJumpTarget ∧
      ((countdown.withInputMode .cyclic).run [5, 3]).result.status ≠ .invalidInputIndex := by
  have strictJumps : (countdown.withJumpMode .error).run [5, 3] = ⟨⟨.ok, 5⟩, 17, 8⟩ := by decide
  have strictLoads : (countdown.withInputMode .direct).run [5, 3] = ⟨⟨.ok, 5⟩, 17, 8⟩ := by decide
  have jumps : ((countdown.withJumpMode .error).run [5, 3]).result.status ≠ .badJumpTarget := by
    rw [strictJumps]
    decide
  have loads : ((countdown.withInputMode .direct).run [5, 3]).result.status ≠
      .invalidInputIndex := by
    rw [strictLoads]
    decide
  obtain ⟨sameJumps, sameLoads, neverLost, neverStarved⟩ := lenient_modes_extend countdown [5, 3]
  refine ⟨jumps, loads, ?_, ?_, neverLost .clamp (by decide), neverStarved (by decide)⟩
  · intro mode
    rw [sameJumps jumps mode, strictJumps]
  · intro mode
    rw [sameLoads loads mode, strictLoads]

/-- Runs keep under more inputs. Inputs that follow those of a direct run which was not refused any
make no difference, and neither does repeating all inputs in a cyclic one. -/
theorem more_inputs_keep (program : Program) (inputs : List Word) :
    (program.inputMode = .direct → (program.run inputs).result.status ≠ .invalidInputIndex →
      ∀ more, program.run (inputs ++ more) = program.run inputs) ∧
    (program.inputMode = .cyclic → ∀ count, 1 ≤ count →
      program.run (List.replicate count inputs).flatten = program.run inputs) := by
  constructor
  · intro direct accepted more
    exact (program.more_inputs_extend inputs direct more).run accepted
  · intro cyclic count positive
    exact (program.repeated_inputs_extend inputs cyclic count positive).run not_false

/-- Loads at the least and the greatest index there are. -/
def distantLoads : Program where
  code := [.loadInput Int64.minValue, .loadInput Int64.maxValue, .binary .sub, .halt]
  maxSteps := 4
  jumpMode := .error
  inputMode := .cyclic
  halts := by decide
  positive := by decide

theorem more_inputs_keep_distant :
    (countdown.inputMode = .direct ∧
        (countdown.run [5, 3]).result.status ≠ .invalidInputIndex ∧
        countdown.run [5, 3, 8, 9] = ⟨⟨.ok, 5⟩, 17, 8⟩) ∧
      (distantLoads.inputMode = .cyclic ∧ 1 ≤ 2 ∧
        distantLoads.run [10, 20, 40, 80, 10, 20, 40, 80] = ⟨⟨.ok, -70⟩, 4, 3⟩) := by
  have counted : countdown.run [5, 3] = ⟨⟨.ok, 5⟩, 17, 8⟩ := by decide
  have loaded : distantLoads.run [10, 20, 40, 80] = ⟨⟨.ok, -70⟩, 4, 3⟩ := by decide
  have accepted : (countdown.run [5, 3]).result.status ≠ .invalidInputIndex := by
    rw [counted]
    decide
  have appended := (more_inputs_keep countdown [5, 3]).1 rfl accepted [8, 9]
  have repeated := (more_inputs_keep distantLoads [10, 20, 40, 80]).2 rfl 2 (by decide)
  exact ⟨⟨rfl, accepted, appended.trans counted⟩, rfl, by decide, repeated.trans loaded⟩

end Program

end StackMachine

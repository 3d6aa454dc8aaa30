import Mathlib.Algebra.Group.Nat.Defs
import StackMachine.Proofs.Machine.Extension
import StackMachine.Proofs.Render.Canonical
import StackMachine.Proofs.Word

/-!
# Resolving the jumps beforehand

A resolved target is a position inside the program, and a position inside the program is its own
resolution in every mode. So a program whose targets are replaced by what they resolve to has the
walk of the program itself, and where nothing is left to resolve the mode no longer matters.
-/

namespace StackMachine

set_option autoImplicit false

namespace JumpMode

/-- The resolved position as an operand. A list of instructions may be longer than any word counts,
and a position that is no word is no operand. -/
def resolveWord? (mode : JumpMode) (length : Nat) (target : Word) : Option Word :=
  (mode.resolve? length target).bind fun position =>
    if position < 2 ^ 63 then some (Int64.ofNat position) else none

/-- The target after resolution, if it resolves. -/
def settle (mode : JumpMode) (length : Nat) (target : Word) : Word :=
  (mode.resolveWord? length target).getD target

variable {mode : JumpMode} {length : Nat} {target : Word}

/-- Every position of a program that words can count is an operand. -/
theorem resolve_word_counted (counted : length ≤ 2 ^ 63) :
    (mode.resolveWord? length target).map Int64.toInt =
      (mode.resolve? length target).map fun position : Nat => (position : Int) := by
  rw [resolveWord?]
  cases resolved : mode.resolve? length target with
  | none => rfl
  | some position =>
      have inside := resolve_lt mode length position target resolved
      have small : position < 2 ^ 63 := Nat.lt_of_lt_of_le inside counted
      rw [Option.bind_some, if_pos small, Option.map_some, Option.map_some,
        Word.of_nat_to_int position small]

/-- A target that resolved to an operand resolves to the same position from then on, in whatever
mode. -/
theorem resolve_settled (later : JumpMode) (settled : (mode.resolveWord? length target).isSome) :
    later.resolve? length (mode.settle length target) = mode.resolve? length target := by
  rw [resolveWord?] at settled
  cases resolved : mode.resolve? length target with
  | none => simp [resolved] at settled
  | some position =>
      have inside := resolve_lt mode length position target resolved
      have small : position < 2 ^ 63 := by
        refine Nat.lt_of_not_le fun large => ?_
        rw [resolved, Option.bind_some, if_neg (Nat.not_lt.mpr large)] at settled
        cases settled
      have operand : mode.settle length target = Int64.ofNat position := by
        simp only [settle, resolveWord?, resolved, Option.bind_some, if_pos small, Option.getD_some]
      have place := Word.of_nat_to_int position small
      rw [operand, resolve_inside (by omega) (by omega), place, Int.toNat_natCast]

/-- Resolving twice is resolving once. A target that stays because it does not resolve does not
resolve afterwards either. -/
theorem resolve_settle (mode : JumpMode) (length : Nat) (target : Word) :
    mode.resolve? length (mode.settle length target) = mode.resolve? length target := by
  by_cases settled : (mode.resolveWord? length target).isSome
  · exact resolve_settled mode settled
  · rw [settle, Option.not_isSome_iff_eq_none.mp settled, Option.getD_none]

end JumpMode

def Instr.target? : Instr → Option Word
  | .jump target | .branch _ target => some target
  | .halt | .pushConst _ | .loadInput _ | .binary _ | .unary _ | .stack _ => none

def Instr.mapTarget (change : Word → Word) : Instr → Instr
  | .jump target => .jump (change target)
  | .branch condition target => .branch condition (change target)
  | instr => instr

namespace Program

def targets (program : Program) : List Word := program.code.filterMap Instr.target?

/-- The program with every target that resolves replaced by its position. -/
def resolved (program : Program) : Program where
  code := program.code.map (Instr.mapTarget (program.jumpMode.settle program.length))
  maxSteps := program.maxSteps
  jumpMode := program.jumpMode
  inputMode := program.inputMode
  halts := List.mem_map.mpr ⟨.halt, program.halts, rfl⟩
  positive := program.positive

end Program

namespace Render

section

variable {program : Program} {mode : JumpMode}

theorem length_resolved : (program.resolved.withJumpMode mode).length = program.length := by
  simp [Program.length, Program.resolved, Program.withJumpMode]

theorem of_instr_resolved (pc : Nat) (instr : Instr)
    (same : ∀ target, instr.target? = some target →
      mode.resolve? program.length (program.jumpMode.settle program.length target) =
        program.jumpMode.resolve? program.length target) :
    Action.ofInstr (program.resolved.withJumpMode mode) pc
        (instr.mapTarget (program.jumpMode.settle program.length)) =
      Action.ofInstr program pc instr := by
  cases instr with
  | jump target | branch _ target =>
      have position := same target rfl
      simp only [Instr.mapTarget, Action.ofInstr, length_resolved]
      simp only [Program.withJumpMode, position]
  | halt | pushConst _ | loadInput _ | binary _ | unary _ | stack _ => rfl

theorem arms_from_resolved (pc : Nat) (code : List Instr)
    (same : ∀ target ∈ code.filterMap Instr.target?,
      mode.resolve? program.length (program.jumpMode.settle program.length target) =
        program.jumpMode.resolve? program.length target) :
    Dispatch.armsFrom (program.resolved.withJumpMode mode) pc
        (code.map (Instr.mapTarget (program.jumpMode.settle program.length))) =
      Dispatch.armsFrom program pc code := by
  induction code generalizing pc with
  | nil => rfl
  | cons instr code ih =>
      have rest := ih (pc + 1) fun target among =>
        same target (by
          obtain ⟨other, member, found⟩ := List.mem_filterMap.mp among
          exact List.mem_filterMap.mpr ⟨other, List.mem_cons_of_mem _ member, found⟩)
      have here := of_instr_resolved pc instr fun target found =>
        same target (List.mem_filterMap.mpr ⟨instr, List.mem_cons_self, found⟩)
      rw [List.map_cons, Dispatch.armsFrom, Dispatch.armsFrom, rest, here]

/-- A mode that resolves the settled targets as the program's own mode resolves its targets makes no
difference to the walk. -/
theorem alike_resolved
    (same : ∀ target ∈ program.targets,
      mode.resolve? program.length (program.jumpMode.settle program.length target) =
        program.jumpMode.resolve? program.length target) :
    Alike (program.resolved.withJumpMode mode) program := by
  have arms := arms_from_resolved 0 program.code same
  exact congrArg (fun arms => (Dispatch.mk program.maxSteps arms .halt).canonical) arms

theorem alike_own_mode (program : Program) : Alike program.resolved program := by
  have own : Alike (program.resolved.withJumpMode program.jumpMode) program :=
    alike_resolved fun target _ => program.jumpMode.resolve_settle program.length target
  exact own

end

end Render

/-- Resolving the jumps of a program beforehand keeps every run and every text, and once all of its
targets have resolved, the runs are the same in every mode. The resolved value that replaces a
target is the position itself in every program that words can count. -/
theorem resolved_preserves (program : Program) :
    (∀ inputs, program.resolved.run inputs = program.run inputs) ∧
      (∀ (language : Render.Language) (name : Text),
        language.render name program.resolved = language.render name program) ∧
      ((∀ target ∈ program.targets,
          (program.jumpMode.resolveWord? program.length target).isSome) →
        ∀ mode inputs,
          (program.resolved.withJumpMode mode).run inputs = program.resolved.run inputs) ∧
      (program.length ≤ 2 ^ 63 → ∀ target,
        (program.jumpMode.resolveWord? program.length target).map Int64.toInt =
          (program.jumpMode.resolve? program.length target).map
            fun position : Nat => (position : Int)) := by
  have own := Render.alike_own_mode program
  refine ⟨Render.run_of_alike own, Render.render_of_alike own, ?_,
    fun counted target => JumpMode.resolve_word_counted counted⟩
  intro settled mode inputs
  have other : Render.Alike (program.resolved.withJumpMode mode) program :=
    Render.alike_resolved fun target among => JumpMode.resolve_settled mode (settled target among)
  rw [Render.run_of_alike other, Render.run_of_alike own]

def Program.wrappingJumps : Program :=
  ⟨[.pushConst 7, .jump (-1), .jump 10, .halt], 64, .wrap, .direct, by decide, by decide⟩

theorem resolved_preserves_wrapping_jumps :
    (∀ target ∈ Program.wrappingJumps.targets,
        (Program.wrappingJumps.jumpMode.resolveWord? Program.wrappingJumps.length target).isSome) ∧
      Program.wrappingJumps.length ≤ 2 ^ 63 ∧
      Program.wrappingJumps.resolved.code = [.pushConst 7, .jump 3, .jump 2, .halt] ∧
      ∀ mode, (Program.wrappingJumps.resolved.withJumpMode mode).run [] = ⟨⟨.ok, 7⟩, 3, 3⟩ := by
  have settled : ∀ target ∈ Program.wrappingJumps.targets,
      (Program.wrappingJumps.jumpMode.resolveWord? Program.wrappingJumps.length target).isSome := by
    intro target among
    have either : -1 = target ∨ 10 = target := by
      simpa [Program.targets, Program.wrappingJumps, Instr.target?] using among
    rcases either with rfl | rfl <;> decide
  have counted : Program.wrappingJumps.length ≤ 2 ^ 63 := by decide
  obtain ⟨sameRun, -, anyMode, -⟩ := resolved_preserves Program.wrappingJumps
  refine ⟨settled, counted, by decide, fun mode => ?_⟩
  rw [anyMode settled mode [], sameRun []]
  decide

end StackMachine

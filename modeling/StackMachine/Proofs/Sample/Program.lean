import StackMachine.Proofs.Random.Draw
import StackMachine.Proofs.Sample.Axes
import StackMachine.Proofs.Word
import StackMachine.Sample.Program
import StackMachine.Sample.Template

/-!
# Sampling always gives a program

Along axes that pass their check every question of the sampler has an answer, and whatever the
answers are, the code ends with its halt and the budget is positive, so the program is accepted. Only
a length beyond any room stops the sampler, and it stops there before it asks for an instruction.
-/

namespace StackMachine.Sample

set_option autoImplicit false

open StackMachine.Random

theorem neg_to_int (word : Word) (positive : 1 ≤ word) : (Word.neg word).toInt = -word.toInt := by
  have least : (1 : Int) ≤ word.toInt := Int64.le_iff_toInt_le.mp positive
  have greatest := word.toInt_le
  have range : Int64.maxValue.toInt = 9223372036854775807 := rfl
  rw [Word.neg_wraps, Int64.toInt_ofInt_of_le (by omega) (by omega)]

theorem neg_le_self (word : Word) (positive : 1 ≤ word) : Word.neg word ≤ word := by
  have least : (1 : Int) ≤ word.toInt := Int64.le_iff_toInt_le.mp positive
  rw [Int64.le_iff_toInt_le, neg_to_int word positive]
  omega

theorem index_span_positive (axes : Axes) : 1 ≤ indexSpan axes := by
  change 1 ≤ if (1 : Word) ≤ Word.add axes.listLength.high 2 then _ else (1 : Word)
  split
  · assumption
  · exact Int64.le_refl _

theorem create_ended (body : List Instr) (maxSteps : Word) (jumpMode : JumpMode)
    (inputMode : InputMode) (positive : 1 ≤ maxSteps) :
    Program.create (body ++ [.halt]) maxSteps jumpMode inputMode =
      .ok ⟨body ++ [.halt], maxSteps, jumpMode, inputMode, by simp, positive⟩ := by
  rw [Program.create, if_neg (by simp), dif_pos (by simp), dif_pos positive]

theorem answerable_choose {Item : Type} (items : List Item) (fallback : Item)
    (ordered : 0 ≤ Int64.ofNat (items.length - 1)) : (Draw.choose items fallback).Answerable :=
  Draw.answerable_bind _ _ (.ask 0 _ _ ordered fun answer _ _ => .done answer.toInt.toNat)
    fun index _ => .done (items.getD index fallback)

section

variable {axes : Axes} (valid : axes.Valid)

include valid

theorem answerable_instr_of (length : Word) (positive : 1 ≤ length) (opcode : Opcode) :
    (instrOf axes length opcode).Answerable := by
  have constants : axes.constant.low ≤ axes.constant.high := valid.ordered .constant
  have span := neg_le_self _ (index_span_positive axes)
  have targets := neg_le_self length positive
  cases opcode with
  | pushConst =>
      exact Draw.answerable_bind _ _ (Draw.answerable_word _ _ constants) fun word _ => .done _
  | loadInput =>
      exact Draw.answerable_bind _ _ (Draw.answerable_word _ _ span) fun word _ => .done _
  | jump =>
      exact Draw.answerable_bind _ _ (Draw.answerable_word _ _ targets) fun word _ => .done _
  | branch condition =>
      exact Draw.answerable_bind _ _ (Draw.answerable_word _ _ targets) fun word _ => .done _
  | halt | binary _ | unary _ | stack _ => exact .done _

theorem answerable_instr (length : Word) (positive : 1 ≤ length) :
    (instr axes length).Answerable :=
  Draw.answerable_bind _ _ (answerable_choose candidates .pushConst (by decide)) fun opcode _ =>
    answerable_instr_of valid length positive opcode

theorem answerable_instrs (length : Word) (positive : 1 ≤ length) (drawn : List Instr)
    (count : Nat) : (instrsAfter axes length drawn count).Answerable := by
  induction count generalizing drawn with
  | zero => exact .done _
  | succ count ih =>
      exact Draw.answerable_bind _ _ (answerable_instr valid length positive) fun next _ =>
        ih (next :: drawn)

/-- The bounds on the modes say that there are few enough to be chosen from. -/
theorem answerable_program_of (jumpModes : 0 ≤ Int64.ofNat (axes.jumpModes.length - 1))
    (inputModes : 0 ≤ Int64.ofNat (axes.inputModes.length - 1)) :
    (programOf axes).Answerable := by
  have lengths : axes.programLength.low ≤ axes.programLength.high := valid.ordered .programLength
  have budgets : axes.maxSteps.low ≤ axes.maxSteps.high := valid.ordered .maxSteps
  refine Draw.answerable_bind _ _ (Draw.answerable_word _ _ lengths) fun length drawn => ?_
  have positive : 1 ≤ length :=
    Int64.le_trans valid.someInstr ((Draw.yields_word _ _ _).mp drawn).1
  split
  · exact .done _
  refine Draw.answerable_bind _ _ (answerable_instrs valid length positive [] _) fun body _ => ?_
  refine Draw.answerable_bind _ _ (answerable_choose _ _ jumpModes) fun jumpMode _ => ?_
  refine Draw.answerable_bind _ _ (answerable_choose _ _ inputModes) fun inputMode _ => ?_
  exact Draw.answerable_bind _ _ (Draw.answerable_word _ _ budgets) fun maxSteps _ => .done _

theorem yields_program_of (roomy : axes.programLength.high ≤ maxRoom)
    (outcome : Except SampleError Program) (drawn : (programOf axes).Yields outcome) :
    ∃ program, outcome = .ok program := by
  obtain ⟨length, bounds, rest⟩ := (Draw.yields_bind _ _ _).mp drawn
  have fits : ¬maxRoom < length :=
    Int64.not_lt.mpr (Int64.le_trans ((Draw.yields_word _ _ _).mp bounds).2 roomy)
  rw [if_neg fits] at rest
  simp only [Draw.yields_bind, Draw.yields_pure, Draw.yields_word] at rest
  obtain ⟨body, -, jumpMode, -, inputMode, -, maxSteps, ⟨above, -⟩, rfl⟩ := rest
  exact ⟨_, congrArg _ (create_ended _ _ _ _ (Int64.le_trans valid.someStep above))⟩

end

theorem program_of_passed {axes : Axes} (passed : axes.check = none) :
    Sample.program axes = programOf axes := by
  rw [Sample.program, passed]

theorem answerable_program : (Sample.program .standard).Answerable := by
  rw [program_of_passed Axes.standard_passes]
  exact answerable_program_of Axes.standard_valid (by decide) (by decide)

theorem yields_program (outcome : Except SampleError Program)
    (drawn : (Sample.program .standard).Yields outcome) : ∃ program, outcome = .ok program := by
  rw [program_of_passed Axes.standard_passes] at drawn
  exact yields_program_of Axes.standard_valid (by decide) outcome drawn

theorem Template.range_ordered (template : Template) :
    template.constantRange.low ≤ template.constantRange.high := by
  cases template <;> decide

theorem Template.answerable_program (template : Template) : template.program.Answerable :=
  Draw.answerable_bind _ _ (Draw.answerable_word _ _ template.range_ordered) fun _ _ =>
    .done _

end StackMachine.Sample

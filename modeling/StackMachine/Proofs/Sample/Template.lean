import StackMachine.Proofs.Machine.Budget
import StackMachine.Proofs.Random.Twister
import StackMachine.Proofs.Sample.Program
import StackMachine.Proofs.Word

/-!
# What the templates compute

A template program follows its code instruction by instruction, so its runs are read off the moves
of the machine. The last template has the only loop: with a first input that is neither zero nor the
constant no move leads out of it, so the whole budget is spent there.
-/

namespace StackMachine.Sample.Template

set_option autoImplicit false

open StackMachine.Random

/-- The difficulty between one and five that counts for any. -/
def level (difficulty : Int) : Nat := (max minDifficulty (min maxDifficulty difficulty)).toNat

/-- The least and the greatest constant of each difficulty. -/
def documentedRange : Nat → Int × Int
  | 1 => (-10, 10)
  | 2 => (-5, 5)
  | 3 => (1, 5)
  | 4 => (1, 5)
  | _ => (1, 3)

/-- The word with the same residue. -/
def wrapped (number : Int) : Word := Int64.ofInt number

/-- The answers of each difficulty. Only the first asks for no input. -/
def documented (constant : Word) : Nat → List Word → Result
  | 1, _ => ⟨.ok, constant⟩
  | 2, first :: _ => ⟨.ok, wrapped (first.toInt + constant.toInt)⟩
  | 3, first :: _ =>
      ⟨.ok, wrapped (first.toInt - (wrapped (first.toInt * constant.toInt)).toInt)⟩
  | 4, first :: others =>
      if first = 0 then ⟨.ok, 0⟩
      else
        match others with
        | second :: _ => ⟨.ok, wrapped (second.toInt + constant.toInt)⟩
        | [] => ⟨.invalidInputIndex, 0⟩
  | 5, first :: _ =>
      if first = 0 then ⟨.ok, 0⟩
      else if first = constant then ⟨.ok, 1⟩
      else ⟨.stepLimit, 0⟩
  | _, _ => ⟨.invalidInputIndex, 0⟩

theorem fetch_none (index : Word) : InputMode.direct.fetch? [] index = none := by
  apply InputMode.fetch_direct_outside
  have sign := Int.lt_or_le index.toInt 0
  simpa using sign

theorem fetch_first (first : Word) (others : List Word) :
    InputMode.direct.fetch? (first :: others) 0 = some first := by
  have inside : (0 : Int) ≤ (0 : Word).toInt ∧ (0 : Word).toInt < (first :: others).length := by
    simp
  rw [InputMode.fetch?, InputMode.resolve?, if_pos inside]
  rfl

theorem fetch_second (first second : Word) (others : List Word) :
    InputMode.direct.fetch? (first :: second :: others) 1 = some second := by
  have inside : (0 : Int) ≤ (1 : Word).toInt ∧
      (1 : Word).toInt < (first :: second :: others).length := by
    have index : (1 : Word).toInt = 1 := rfl
    rw [index, List.length_cons, List.length_cons]
    omega
  rw [InputMode.fetch?, InputMode.resolve?, if_pos inside]
  rfl

theorem fetch_second_missing (first : Word) : InputMode.direct.fetch? [first] 1 = none :=
  InputMode.fetch_direct_outside (.inr (Int.le_refl 1))

variable (drawn first : Word) (others : List Word)

theorem evaluate_from_start (template : Template) (inputs : List Word) :
    (template.programWith drawn).evaluate inputs =
      ((template.programWith drawn).stopFrom inputs 64 ⟨0, [], 0⟩).result := rfl

theorem evaluate_constant (inputs : List Word) :
    (Template.constant.programWith drawn).evaluate inputs = ⟨.ok, drawn⟩ := by
  rw [evaluate_from_start, Program.stop_from_moves rfl (.pushConst drawn 0 []),
    Program.stop_from_ends rfl (.halted [drawn])]
  rfl

theorem evaluate_shift :
    (shift.programWith drawn).evaluate (first :: others) = ⟨.ok, Word.add first drawn⟩ := by
  rw [evaluate_from_start,
    Program.stop_from_moves rfl (.loadInput 0 first 0 [] (fetch_first first others)),
    Program.stop_from_moves rfl (.pushConst drawn 1 [first]),
    Program.stop_from_moves rfl (.binary .add drawn first (Word.add first drawn) 2 [] rfl),
    Program.stop_from_ends rfl (.halted [Word.add first drawn])]
  rfl

theorem evaluate_residue :
    (residue.programWith drawn).evaluate (first :: others) =
      ⟨.ok, Word.sub first (Word.mul first drawn)⟩ := by
  rw [evaluate_from_start,
    Program.stop_from_moves rfl (.loadInput 0 first 0 [] (fetch_first first others)),
    Program.stop_from_moves rfl (.dup first 1 []),
    Program.stop_from_moves rfl (.pushConst drawn 2 [first, first]),
    Program.stop_from_moves rfl (.binary .mul drawn first (Word.mul first drawn) 3 [first] rfl),
    Program.stop_from_moves rfl
      (.binary .sub (Word.mul first drawn) first (Word.sub first (Word.mul first drawn)) 4 [] rfl),
    Program.stop_from_ends rfl (.halted [Word.sub first (Word.mul first drawn)])]
  rfl

theorem evaluate_select_zero :
    (select.programWith drawn).evaluate (0 :: others) = ⟨.ok, 0⟩ := by
  rw [evaluate_from_start,
    Program.stop_from_moves rfl (.loadInput 0 0 0 [] (fetch_first 0 others)),
    Program.stop_from_moves rfl (.taken .ifZero 6 0 1 6 [] rfl rfl),
    Program.stop_from_moves rfl (.pushConst 0 6 []),
    Program.stop_from_ends rfl (.halted [0])]
  rfl

theorem select_past_branch (nonzero : first ≠ 0) :
    (select.programWith drawn).stopFrom (first :: others) 64 ⟨0, [], 0⟩ =
      (select.programWith drawn).stopFrom (first :: others) 62 ⟨2, [], 2⟩ := by
  have fails : Condition.ifZero.holds first = false := beq_false_of_ne nonzero
  rw [Program.stop_from_moves rfl (.loadInput 0 first 0 [] (fetch_first first others)),
    Program.stop_from_moves rfl (.passed .ifZero 6 first 1 [] fails)]

theorem evaluate_select_second (second : Word) (nonzero : first ≠ 0) :
    (select.programWith drawn).evaluate (first :: second :: others) =
      ⟨.ok, Word.add second drawn⟩ := by
  rw [evaluate_from_start, select_past_branch drawn first _ nonzero,
    Program.stop_from_moves rfl (.loadInput 1 second 2 [] (fetch_second first second others)),
    Program.stop_from_moves rfl (.pushConst drawn 3 [second]),
    Program.stop_from_moves rfl (.binary .add drawn second (Word.add second drawn) 4 [] rfl),
    Program.stop_from_ends rfl (.halted [Word.add second drawn])]
  rfl

theorem evaluate_select_missing (nonzero : first ≠ 0) :
    (select.programWith drawn).evaluate [first] = ⟨.invalidInputIndex, 0⟩ := by
  rw [evaluate_from_start, select_past_branch drawn first _ nonzero,
    Program.stop_from_ends rfl (.starved 1 [] (fetch_second_missing first))]
  rfl

theorem evaluate_search_zero :
    (search.programWith drawn).evaluate (0 :: others) = ⟨.ok, 0⟩ := by
  rw [evaluate_from_start,
    Program.stop_from_moves rfl (.pushConst 0 0 []),
    Program.stop_from_moves rfl (.loadInput 0 0 1 [0] (fetch_first 0 others)),
    Program.stop_from_moves rfl (.taken .ifZero 10 0 2 10 [0] rfl rfl),
    Program.stop_from_ends rfl (.halted [0])]
  rfl

theorem search_enters_loop (nonzero : first ≠ 0) :
    (search.programWith drawn).stopFrom (first :: others) 64 ⟨0, [], 0⟩ =
      (search.programWith drawn).stopFrom (first :: others) 61 ⟨3, [0], 3⟩ := by
  have fails : Condition.ifZero.holds first = false := beq_false_of_ne nonzero
  rw [Program.stop_from_moves rfl (.pushConst 0 0 []),
    Program.stop_from_moves rfl (.loadInput 0 first 1 [0] (fetch_first first others)),
    Program.stop_from_moves rfl (.passed .ifZero 10 first 2 [0] fails)]

theorem evaluate_search_found (nonzero : drawn ≠ 0) :
    (search.programWith drawn).evaluate (drawn :: others) = ⟨.ok, 1⟩ := by
  have difference : BinaryOp.sub.eval? drawn drawn = some 0 :=
    congrArg some (Int64.sub_self drawn)
  rw [evaluate_from_start, search_enters_loop drawn drawn others nonzero,
    Program.stop_from_moves rfl (.loadInput 0 drawn 3 [0] (fetch_first drawn others)),
    Program.stop_from_moves rfl (.pushConst drawn 4 [drawn, 0]),
    Program.stop_from_moves rfl (.binary .sub drawn drawn 0 5 [0] difference),
    Program.stop_from_moves rfl (.passed .ifNonzero 3 0 6 [0] rfl),
    Program.stop_from_moves rfl (.pushConst 1 7 [0]),
    Program.stop_from_moves rfl (.jump 10 8 10 [1, 0] rfl),
    Program.stop_from_ends rfl (.halted [1, 0])]
  rfl

/-- The positions of the loop, with the stacks on which it comes to them. -/
inductive InLoop : Nat → List Word → Prop
  | load : InLoop 3 [0]
  | push : InLoop 4 [first, 0]
  | subtract : InLoop 5 [drawn, first, 0]
  | test : InLoop 6 [Word.sub first drawn, 0]

/-- The difference of words is zero only if they are the same, also where it wraps. So the jump at
the end of the loop is always taken. -/
theorem loop_goes_on (other : first ≠ drawn) (pc : Nat) (stack : List Word)
    (inside : InLoop drawn first pc stack) :
    ∃ instr next left, (search.programWith drawn).code[pc]? = some instr ∧
      (search.programWith drawn).Moves (first :: others) instr pc stack next left ∧
        InLoop drawn first next left := by
  cases inside with
  | load => exact ⟨_, _, _, rfl, .loadInput 0 first 3 [0] (fetch_first first others), .push⟩
  | push => exact ⟨_, _, _, rfl, .pushConst drawn 4 [first, 0], .subtract⟩
  | subtract => exact ⟨_, _, _, rfl, .binary .sub drawn first _ 5 [0] rfl, .test⟩
  | test =>
      have differs : Word.sub first drawn ≠ 0 := by
        intro same
        rw [Word.sub, Int64.sub_eq_iff_eq_add, Int64.zero_add] at same
        exact other same
      have holds : Condition.ifNonzero.holds (Word.sub first drawn) = true :=
        bne_iff_ne.mpr differs
      exact ⟨_, _, _, rfl, .taken .ifNonzero 3 _ 6 3 [0] holds rfl, .load⟩

theorem evaluate_search_lost (nonzero : first ≠ 0) (other : first ≠ drawn) :
    (search.programWith drawn).evaluate (first :: others) = ⟨.stepLimit, 0⟩ := by
  rw [evaluate_from_start, search_enters_loop drawn first others nonzero]
  exact Program.stop_from_endless (InLoop drawn first) (loop_goes_on drawn first others other) 61 3
    .load

theorem evaluate_no_input (template : Template) (asks : template ≠ .constant) :
    (template.programWith drawn).evaluate [] = ⟨.invalidInputIndex, 0⟩ := by
  cases template with
  | constant => exact absurd rfl asks
  | shift | residue | select =>
      rw [evaluate_from_start, Program.stop_from_ends rfl (.starved 0 [] (fetch_none 0))]
      rfl
  | search =>
      rw [evaluate_from_start, Program.stop_from_moves rfl (.pushConst 0 0 []),
        Program.stop_from_ends rfl (.starved 0 [0] (fetch_none 0))]
      rfl

theorem template_of_level (difficulty : Int) :
    (level difficulty = 1 ∧ ofDifficulty difficulty = .constant) ∨
      (level difficulty = 2 ∧ ofDifficulty difficulty = .shift) ∨
      (level difficulty = 3 ∧ ofDifficulty difficulty = .residue) ∨
      (level difficulty = 4 ∧ ofDifficulty difficulty = .select) ∨
      (level difficulty = 5 ∧ ofDifficulty difficulty = .search) := by
  simp only [level, minDifficulty, maxDifficulty, ofDifficulty]
  split_ifs <;> simp <;> omega

theorem evaluate_documented (difficulty : Int) (inputs : List Word) :
    ((ofDifficulty difficulty).programWith drawn).evaluate inputs =
      documented drawn (level difficulty) inputs := by
  rcases template_of_level difficulty with ⟨counted, named⟩ | ⟨counted, named⟩ |
    ⟨counted, named⟩ | ⟨counted, named⟩ | ⟨counted, named⟩ <;> rw [counted, named]
  · exact evaluate_constant drawn inputs
  · rcases inputs with _ | ⟨first, others⟩
    · exact evaluate_no_input drawn .shift Template.noConfusion
    · rw [evaluate_shift, Word.add_wraps]
      rfl
  · rcases inputs with _ | ⟨first, others⟩
    · exact evaluate_no_input drawn .residue Template.noConfusion
    · rw [evaluate_residue, Word.sub_wraps, Word.mul_wraps]
      rfl
  · rcases inputs with _ | ⟨first, others⟩
    · exact evaluate_no_input drawn .select Template.noConfusion
    · by_cases zero : first = 0
      · rw [zero, evaluate_select_zero]
        rfl
      · simp only [documented, if_neg zero]
        rcases others with _ | ⟨second, others⟩
        · exact evaluate_select_missing drawn first zero
        · rw [evaluate_select_second drawn first others second zero, Word.add_wraps]
          rfl
  · rcases inputs with _ | ⟨first, others⟩
    · exact evaluate_no_input drawn .search Template.noConfusion
    · by_cases zero : first = 0
      · rw [zero, evaluate_search_zero]
        rfl
      · simp only [documented, if_neg zero]
        by_cases found : first = drawn
        · rw [if_pos found, found, evaluate_search_found drawn others (found ▸ zero)]
        · rw [if_neg found, evaluate_search_lost drawn first others zero found]

/-- Whether a constant lies in the range of a difficulty. -/
def Documented (level : Nat) (constant : Word) : Prop :=
  (documentedRange level).1 ≤ constant.toInt ∧ constant.toInt ≤ (documentedRange level).2

theorem constant_documented (difficulty : Int) :
    (ofDifficulty difficulty).constantRange.low ≤ drawn ∧
        drawn ≤ (ofDifficulty difficulty).constantRange.high ↔
      Documented (level difficulty) drawn := by
  rw [Documented, Int64.le_iff_toInt_le, Int64.le_iff_toInt_le]
  rcases template_of_level difficulty with ⟨counted, named⟩ | ⟨counted, named⟩ |
    ⟨counted, named⟩ | ⟨counted, named⟩ | ⟨counted, named⟩ <;> rw [counted, named] <;> rfl

theorem yields_template (difficulty : Int) (program : Program) :
    (ofDifficulty difficulty).program.Yields program ↔
      ∃ constant, Documented (level difficulty) constant ∧
        program = (ofDifficulty difficulty).programWith constant := by
  simp only [Template.program, Draw.yields_bind, Draw.yields_word, Draw.yields_pure,
    constant_documented]

theorem steps_at_limit (template : Template) (inputs : List Word)
    (late : ((template.programWith drawn).evaluate inputs).status = .stepLimit) :
    ((template.programWith drawn).run inputs).steps = 64 :=
  (Program.stop_from_limit 64 .start late).2

/-- The constant of a template lies in the documented range of its difficulty, whatever words
between their bounds the draw is answered with; from a twister it is the next answer, and nothing
else is drawn. Whatever the constant is, the template answers what is documented, and it is out of
steps only after sixty-four of them. -/
theorem templates_compute (difficulty : Int) (twister : Twister) :
    (∀ program, (ofDifficulty difficulty).program.Yields program ↔
      ∃ constant, Documented (level difficulty) constant ∧
        program = (ofDifficulty difficulty).programWith constant) ∧
    (let range := (ofDifficulty difficulty).constantRange
      let answer := Twister.answer range.low range.high Twister.patience twister
      Documented (level difficulty) answer.1 ∧
        Twister.run (ofDifficulty difficulty).program twister =
          ((ofDifficulty difficulty).programWith answer.1, answer.2)) ∧
    ∀ constant inputs,
      ((ofDifficulty difficulty).programWith constant).evaluate inputs =
          documented constant (level difficulty) inputs ∧
        (documented constant (level difficulty) inputs = ⟨.stepLimit, 0⟩ →
          (((ofDifficulty difficulty).programWith constant).run inputs).steps = 64) := by
  have within := Twister.answer_within _ _ (ofDifficulty difficulty).range_ordered
    Twister.patience twister
  refine ⟨yields_template difficulty, ⟨(constant_documented _ difficulty).mp within, rfl⟩, ?_⟩
  intro constant inputs
  have answered := evaluate_documented constant difficulty inputs
  refine ⟨answered, fun late => steps_at_limit constant _ inputs ?_⟩
  rw [answered, late]

end StackMachine.Sample.Template

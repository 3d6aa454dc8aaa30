import StackMachine.Proofs.Layout.Indentation
import StackMachine.Proofs.Python.Reading

/-!
# Indentation of rendered Python

No expression has a colon in it, so only the lines that are meant to head a block do. The arms are
one conditional: the first one begins it, and each of the others is an alternative to all before.
-/

namespace StackMachine.Python

open StackMachine.Render StackMachine.Render.Python StackMachine.Layout

set_option autoImplicit false

theorem var_clean (name : Var) : Text.newline ∉ name.text ∧ colon ∉ name.text := by
  cases name <;> decide

theorem operator_clean (operator : Operator) :
    Text.newline ∉ operator.text ∧ colon ∉ operator.text := by
  cases operator <;> decide

theorem relation_clean (relation : Relation) :
    Text.newline ∉ relation.text ∧ colon ∉ relation.text := by
  cases relation <;> decide

theorem int_without_colon (value : Int) : colon ∉ Decimal.ofInt value :=
  Decimal.not_mem_of_int (by decide) (by decide) value

theorem nat_without_colon (value : Nat) : colon ∉ Decimal.ofNat value :=
  Decimal.not_mem_of_nat (by decide) value

theorem hexadecimal_digit (value : Nat) :
    ∀ char ∈ Nat.toDigits 16 value, ∃ digit < 16, char = Nat.digitChar digit := by
  induction value using Nat.strongRecOn with
  | _ value ih =>
      intro char member
      by_cases small : value < 16
      · rw [Nat.toDigits_of_lt_base small, List.mem_singleton] at member
        exact ⟨value, small, member⟩
      · rw [Nat.toDigits_of_base_le (by decide) (by omega), List.mem_append,
          List.mem_singleton] at member
        rcases member with earlier | last
        · exact ih (value / 16) (by omega) char earlier
        · exact ⟨value % 16, Nat.mod_lt _ (by decide), last⟩

theorem hexadecimal_clean (value : Nat) :
    Text.newline ∉ hexadecimal value ∧ colon ∉ hexadecimal value := by
  have digits : ∀ digit < 16, (Nat.digitChar digit).toUpper.toNat.toUInt8 ≠ Text.newline ∧
      (Nat.digitChar digit).toUpper.toNat.toUInt8 ≠ colon := by
    decide
  have prefixed : ∀ byte ∈ Text.ascii "0x", byte ≠ Text.newline ∧ byte ≠ colon := by
    decide +kernel
  have clean : ∀ byte ∈ hexadecimal value, byte ≠ Text.newline ∧ byte ≠ colon := by
    intro byte member
    rcases List.mem_append.mp member with mark | among
    · exact prefixed byte mark
    · obtain ⟨char, inside, rfl⟩ := List.mem_map.mp among
      obtain ⟨digit, small, rfl⟩ := hexadecimal_digit value char inside
      exact digits digit small
  exact ⟨fun member => (clean _ member).1 rfl, fun member => (clean _ member).2 rfl⟩

theorem expr_clean (expr : Expr) : Text.newline ∉ expr.text ∧ colon ∉ expr.text := by
  induction expr with
  | var name => exact var_clean name
  | true => decide
  | int value => exact ⟨int_clean value, int_without_colon value⟩
  | hex value => exact hexadecimal_clean value
  | isEmpty list | length list | removeLast list => simp +decide [Expr.text, var_clean]
  | neg _ ih | abs _ ih | wrap _ ih | group _ ih => simp +decide [Expr.text, ih]
  | element _ _ ih => simp +decide [Expr.text, var_clean, ih]
  | truncDiv _ _ left right => simp +decide [Expr.text, left, right]
  | arith operator _ _ left right => simp +decide [Expr.text, operator_clean, left, right]
  | compare relation _ _ left right => simp +decide [Expr.text, relation_clean, left, right]
  | conditional _ _ _ value test other => simp +decide [Expr.text, value, test, other]

theorem var_begins (name : Var) : beginsPlainly name.text = true := by
  cases name <;> decide

theorem expr_begins (expr : Expr) : beginsPlainly expr.text = true := by
  induction expr with
  | var name => exact var_begins name
  | int value => exact begins_plainly_of_int value
  | true | hex | neg | abs | wrap | truncDiv | isEmpty | length | group => rfl
  | element list | removeLast list =>
      simp only [Expr.text, List.append_assoc]
      exact begins_plainly_append (var_begins list) _
  | arith _ _ _ left | compare _ _ _ left | conditional _ _ _ left =>
      simp only [Expr.text, List.append_assoc]
      exact begins_plainly_append left _

theorem simple_clean (stmt : Simple) : Text.newline ∉ stmt.text := by
  cases stmt <;> simp +decide [Simple.text, var_clean, expr_clean, nat_clean]

def answers : Simple → Bool
  | .ret _ | .answer _ _ => true
  | .assign _ _ | .emptyList _ | .increment _ | .mask _ _ | .append _ _ | .discard _
  | .exchange _ _ _ => false

/-- An annotation has a colon inside, but no simple statement ends with one. -/
theorem simple_last (stmt : Simple) : decide (stmt.text.getLast? = some colon) = false := by
  rw [decide_eq_false_iff_not]
  cases stmt with
  | emptyList name =>
      have last : (name.text ++ Text.ascii ": list[int] = []").getLast? = some 93 :=
        ends_append _ rfl
      rw [Simple.text, last]
      decide
  | assign | increment | mask | append | discard | exchange | ret | answer =>
      refine no_heading ?_
      simp +decide [Simple.text, var_clean, expr_clean, nat_without_colon]

theorem simple_marks (stmt : Simple) : Marks stmt.text false (answers stmt) false := by
  have clean := simple_clean stmt
  have last := simple_last stmt
  cases stmt with
  | assign name | emptyList name | increment name | mask name | append name | exchange name =>
      refine marks_plain clean ?_ last
      simp only [Simple.text, Expr.text, List.append_assoc]
      exact begins_plainly_append (var_begins name) _
  | discard value => exact marks_plain clean (expr_begins value) last
  | ret | answer => exact marks_return clean rfl last

def leaves : Stmt → Bool
  | .simple stmt => answers stmt
  | .ifThen _ _ | .ifElse _ _ _ => false

/-- Something stands in the block, and nothing follows a return in it. -/
def isFilled (body : List Simple) : Bool := body ≠ [] && returnsLast answers body

def isTidy : Stmt → Bool
  | .simple _ => true
  | .ifThen _ body => isFilled body
  | .ifElse _ body other => isFilled body && isFilled other

theorem simples_body (body : List Simple) (filled : isFilled body = true) :
    Body (Simple.edits body) := by
  simp only [isFilled, Bool.and_eq_true, decide_eq_true_eq] at filled
  obtain ⟨nonempty, last⟩ := filled
  constructor
  case block =>
    rw [Simple.edits, List.map_eq_flatMap]
    exact block_sequence _ answers body last fun stmt _ => indented_line (simple_marks stmt)
  case filled =>
    obtain ⟨stmt, rest, rfl⟩ := List.exists_cons_of_ne_nil nonempty
    exact fun _ => List.cons_ne_nil _ _

theorem if_marks (test : Expr) : Marks ("if " ++ test.text ++ ":") true false false := by
  have clean : Text.newline ∉ "if " ++ test.text ++ ":" := by simp +decide [expr_clean]
  exact marks_plain clean rfl (decide_eq_true (ends_append _ rfl))

theorem elif_marks (test : Expr) : Marks ("elif " ++ test.text ++ ":") true false true := by
  have clean : Text.newline ∉ "elif " ++ test.text ++ ":" := by simp +decide [expr_clean]
  exact marks_of_begins clean rfl (by decide) (decide_eq_true (ends_append _ rfl))

theorem else_marks : Marks "else:" true false true :=
  marks_of_begins (by decide) rfl (by decide) (by decide)

theorem stmt_statement (stmt : Stmt) (tidy : isTidy stmt = true) :
    Statement indentation stmt.edits (leaves stmt) := by
  cases stmt with
  | simple stmt => exact indented_line (simple_marks stmt)
  | ifThen test body => exact indented_header (simples_body body tidy) (if_marks test)
  | ifElse test body other =>
      rw [isTidy, Bool.and_eq_true] at tidy
      have conditional := conditional_header (simples_body body tidy.1) (if_marks test) fun _ => rfl
      exact indented_alternative (simples_body other tidy.2) conditional else_marks

theorem body_tidy (action : Action) :
    returnsLast leaves (body action).1 = true ∧ (body action).1.all isTidy = true := by
  cases action with
  | halt | pushConst => exact ⟨rfl, rfl⟩
  | loadInput index mode next =>
      cases mode with
      | cyclic => exact ⟨rfl, rfl⟩
      | direct =>
          simp only [body, loadInput]
          split <;> exact ⟨rfl, rfl⟩
  | binary opcode next =>
      cases opcode with
      | binary op => cases op <;> exact ⟨rfl, rfl⟩
      | _ => exact ⟨rfl, rfl⟩
  | unary opcode next => cases opcode <;> exact ⟨rfl, rfl⟩
  | stack opcode next =>
      cases opcode with
      | stack op => cases op <;> exact ⟨rfl, rfl⟩
      | _ => exact ⟨rfl, rfl⟩
  | jump target => cases target <;> exact ⟨rfl, rfl⟩
  | branch opcode target next => cases opcode <;> cases target <;> exact ⟨rfl, rfl⟩

theorem body_block (action : Action) :
    Block indentation ((body action).1.flatMap Stmt.edits) := by
  obtain ⟨last, tidy⟩ := body_tidy action
  rw [List.all_eq_true] at tidy
  exact block_sequence Stmt.edits leaves _ last fun stmt member =>
    stmt_statement stmt (tidy stmt member)

/-- The count of a step is a line of every arm, so no arm is empty. -/
theorem arm_body (action : Action) :
    Body (.line (Simple.increment .steps).text :: (body action).1.flatMap Stmt.edits) where
  block := block_append (indented_line (simple_marks (.increment .steps))) (body_block action)
  filled _ := List.cons_ne_nil _ _

theorem halt_body : Body (halt.flatMap Stmt.edits) where
  block := body_block .halt
  filled _ := List.cons_ne_nil _ _

theorem conditional_arms (program : Program) (instrs : List Instr) (pc : Nat) (later : pc ≠ 0)
    {front : List Edit} (conditional : Conditional front) :
    Conditional (front ++ target.armEdits program pc instrs) := by
  induction instrs generalizing pc front with
  | nil => simpa [Target.armEdits] using conditional
  | cons instr instrs ih =>
      have notFirst : (pc == 0) = false := by simpa using later
      have longer := conditional_alternative (arm_body (.ofInstr program pc instr)) conditional
        (elif_marks (armTest pc)) fun _ => rfl
      have whole := ih (pc + 1) (Nat.succ_ne_zero pc) longer
      rw [Target.armEdits, notFirst, arm_edits]
      simpa using whole

theorem arms_body (program : Program) :
    Body (target.armEdits program 0 program.code ++
      .line "else:" :: Edit.nested (halt.flatMap Stmt.edits)) := by
  obtain ⟨instr, instrs, shape⟩ :=
    List.exists_cons_of_ne_nil (List.ne_nil_of_mem program.halts)
  have first := conditional_header (arm_body (.ofInstr program 0 instr)) (if_marks (armTest 0))
    fun _ => rfl
  have arms := conditional_arms program instrs 1 (by decide) first
  have edits : target.armEdits program 0 program.code =
      .line ("if " ++ (armTest 0).text ++ ":") ::
        Edit.nested (.line (Simple.increment .steps).text ::
          (body (.ofInstr program 0 instr)).1.flatMap Stmt.edits) ++
        target.armEdits program 1 instrs := by
    rw [shape, Target.armEdits, arm_edits]
    rfl
  rw [edits]
  exact ⟨(indented_alternative halt_body arms else_marks).block, fun _ => List.cons_ne_nil _ _⟩

theorem loop_block (program : Program) :
    Block indentation
      (.line ("while " ++ (loopTest program).text ++ ":") ::
        Edit.nested (target.armEdits program 0 program.code ++
          .line "else:" :: Edit.nested (halt.flatMap Stmt.edits)) ++
        [.line (fail .stepLimit).text]) := by
  have clean : Text.newline ∉ "while " ++ (loopTest program).text ++ ":" := by
    simp +decide [expr_clean]
  have header : Marks ("while " ++ (loopTest program).text ++ ":") true false false :=
    marks_plain clean rfl (decide_eq_true (ends_append _ rfl))
  have looped := indented_header (arms_body program) header
  exact block_append looped (indented_line (simple_marks (fail .stepLimit))).block

theorem helper_statement (helper : Helper) (filled : isFilled helper.body = true)
    (marks : Marks (helperLine helper) true false false) :
    Statement indentation helper.edits false := by
  have blank : Statement indentation [.blank] false :=
    ⟨⟨fun _ => rfl, by simp [Admitted, indentation], segment_nil, fun _ => indentation.sound_nil⟩,
      fun _ _ _ last => by cases last⟩
  exact statement_append (indented_header (simples_body helper.body filled) marks) blank

theorem source_indented (name : Text) (clean : Text.newline ∉ name) (program : Program) :
    Block indentation (Language.python.target.source name program) ∧
      Indented (rowsAt 0 (Language.python.target.source name program)) := by
  have wrap := helper_statement wrapHelper rfl (marks_plain (by decide) rfl rfl)
  have truncDiv := helper_statement truncDivHelper rfl (marks_plain (by decide) rfl rfl)
  have declared : Statement indentation (Simple.edits locals) false := by
    rw [Simple.edits, List.map_eq_flatMap]
    refine statement_sequence _ locals fun stmt member => ?_
    have goesOn : answers stmt = false := by revert stmt; decide
    have line := indented_line (simple_marks stmt)
    rwa [goesOn] at line
  have inside := block_append wrap
    (block_append truncDiv (block_append declared (loop_block program)))
  have header : Marks (headText name) true false false := by
    have line : Text.newline ∉ headText name := by simp +decide [headText, clean]
    exact marks_plain line rfl (decide_eq_true (ends_append _ rfl))
  have whole := indented_header ⟨inside, fun _ => List.cons_ne_nil _ _⟩ header
  rw [source_edits]
  exact ⟨whole.block, indented_of_segment (whole.block.rows 0) (whole.block.sound 0)⟩

end StackMachine.Python

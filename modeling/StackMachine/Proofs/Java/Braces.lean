import StackMachine.Proofs.Java.Reading
import StackMachine.Proofs.Layout.Braces

/-!
# Braces of rendered Java

A line that opens an arm ends with a brace and, but for the first, begins with the brace that closes
the arm before. So the arms are read from the front as one block that stays open, which the last
alternative closes.
-/

namespace StackMachine.Java

open StackMachine.Render StackMachine.Render.Java StackMachine.Layout

set_option autoImplicit false

theorem var_clean (name : Var) : Text.newline ∉ name.text := by
  cases name <;> decide

theorem operator_clean (operator : Operator) : Text.newline ∉ operator.text := by
  cases operator <;> decide

theorem relation_clean (relation : Relation) : Text.newline ∉ relation.text := by
  cases relation <;> decide

theorem literal_clean (value : StackMachine.Word) : Text.newline ∉ literal value := by
  unfold literal
  split
  · decide
  · simp +decide [int_clean]

theorem expr_clean (expr : Expr) : Text.newline ∉ expr.text := by
  induction expr with
  | var name => exact var_clean name
  | int value => exact int_clean value
  | long value => exact literal_clean value
  | length name | lowered name | raised name => simp +decide [Expr.text, var_clean]
  | neg _ ih | abs _ ih | group _ ih | toInt _ ih | toLong _ ih => simp +decide [Expr.text, ih]
  | element _ _ ih | copyOf _ _ ih => simp +decide [Expr.text, var_clean, ih]
  | floorMod _ _ left right => simp +decide [Expr.text, left, right]
  | arith operator _ _ left right => simp +decide [Expr.text, operator_clean, left, right]
  | compare relation _ _ left right => simp +decide [Expr.text, relation_clean, left, right]
  | choice _ _ _ test value other => simp +decide [Expr.text, test, value, other]

theorem simple_clean (stmt : Simple) : Text.newline ∉ stmt.text := by
  cases stmt <;> simp +decide [Simple.text, var_clean, expr_clean, nat_clean]

def answers : Simple → Bool
  | .answer _ _ => true
  | .declare _ _ | .assign _ _ | .store _ _ _ | .increment _ | .decrement _ => false

theorem begins_with_var (name : Var) (rest : Text) :
    beginsPlainly (name.text ++ rest) = true :=
  begins_plainly_append (by cases name <;> decide) rest

theorem simple_spells (stmt : Simple) : Spells stmt.text false false (answers stmt) := by
  have clean := simple_clean stmt
  cases stmt with
  | declare name value => exact spells_plain clean rfl (ends_append _ rfl)
  | assign name value | store name index value | increment name | decrement name =>
      refine spells_plain clean ?_ (ends_append _ rfl)
      simp only [Simple.text, List.append_assoc]
      exact begins_with_var name _
  | answer status value => exact spells_return clean rfl (ends_append _ rfl) (by decide)

theorem if_line_clean (test : Expr) : Text.newline ∉ ifLine test := by
  simp +decide [ifLine, expr_clean]

theorem if_line_spells (test : Expr) : Spells (ifLine test) false true false :=
  spells_plain (if_line_clean test) rfl (ends_append _ rfl)

theorem else_line_spells : Spells (elseText ++ "\x7b") true true false :=
  spells_turn (by decide) rfl rfl

theorem else_if_line_spells (test : Expr) : Spells (elseText ++ ifLine test) true true false := by
  refine spells_turn ?_ rfl (ends_append elseText (ends_append _ rfl))
  simp +decide [if_line_clean]

theorem declaration_spells (declaration : Declaration) :
    Spells declaration.text false false false := by
  have clean : Text.newline ∉ declaration.text := by
    cases declaration <;>
      simp +decide [Declaration.text, var_clean, int_clean, nat_clean, literal_clean]
  cases declaration with
  | array | int | long => exact spells_plain clean rfl (ends_append _ rfl)

def leaves : Stmt → Bool
  | .simple stmt => answers stmt
  | .ifThen _ _ | .ifElse _ _ _ => false

/-- Nothing follows a return inside the statement. -/
def isTidy : Stmt → Bool
  | .simple _ => true
  | .ifThen _ body => returnsLast answers body
  | .ifElse _ body other => returnsLast answers body && returnsLast answers other

theorem simples_block (body : List Simple) (last : returnsLast answers body = true) :
    Block braces (Simple.edits body) := by
  rw [Simple.edits, List.map_eq_flatMap]
  exact block_sequence _ answers body last fun stmt _ => statement_line (simple_spells stmt)

theorem stmt_statement (stmt : Stmt) (tidy : isTidy stmt = true) :
    Layout.Statement braces stmt.edits (leaves stmt) := by
  cases stmt with
  | simple stmt => exact statement_line (simple_spells stmt)
  | ifThen test body => exact statement_braced (simples_block body tidy) (if_line_spells test)
  | ifElse test body other =>
      rw [isTidy, Bool.and_eq_true] at tidy
      have opened := opened_header (simples_block body tidy.1) (if_line_spells test)
      have turned := opened_turn (simples_block other tidy.2) opened else_line_spells
      exact statement_of_opened turned

theorem body_tidy (action : Action) :
    returnsLast leaves (body action).1 = true ∧ (body action).1.all isTidy = true := by
  cases action with
  | halt | pushConst => exact ⟨rfl, rfl⟩
  | loadInput index mode next =>
      cases mode with
      | cyclic => exact ⟨rfl, rfl⟩
      | direct =>
          simp only [body, loadInput]
          split <;> exact ⟨rfl, rfl⟩
  | binary opcode next =>
      cases opcode with
      | binary op => cases op <;> exact ⟨rfl, rfl⟩
      | _ => exact ⟨rfl, rfl⟩
  | unary opcode next => cases opcode <;> exact ⟨rfl, rfl⟩
  | stack opcode next =>
      cases opcode with
      | stack op => cases op <;> exact ⟨rfl, rfl⟩
      | _ => exact ⟨rfl, rfl⟩
  | jump target => cases target <;> exact ⟨rfl, rfl⟩
  | branch opcode target next => cases opcode <;> cases target <;> exact ⟨rfl, rfl⟩

theorem body_block (action : Action) : Block braces ((body action).1.flatMap Stmt.edits) := by
  obtain ⟨last, tidy⟩ := body_tidy action
  rw [List.all_eq_true] at tidy
  exact block_sequence Stmt.edits leaves _ last fun stmt member =>
    stmt_statement stmt (tidy stmt member)

theorem arm_block (action : Action) :
    Block braces (.line (Simple.increment .steps).text :: (body action).1.flatMap Stmt.edits) := by
  have counted := statement_line (simple_spells (.increment .steps))
  exact block_append counted (body_block action)

theorem opened_arms (program : Program) (instrs : List Instr) (pc : Nat) (later : pc ≠ 0)
    {front : List Edit} (opened : Layout.Opened front) :
    Layout.Opened (front ++ target.armEdits program pc instrs) := by
  induction instrs generalizing pc front with
  | nil => simpa [Target.armEdits] using opened
  | cons instr instrs ih =>
      have notFirst : (pc == 0) = false := by simpa using later
      have turned := opened_turn (arm_block (.ofInstr program pc instr)) opened
        (else_if_line_spells (armTest pc))
      have whole := ih (pc + 1) (Nat.succ_ne_zero pc) turned
      rw [Target.armEdits, notFirst, arm_edits]
      simpa [armText] using whole

theorem arms_statement (program : Program) :
    Layout.Statement braces (target.armEdits program 0 program.code ++ otherEdits) false := by
  obtain ⟨instr, instrs, shape⟩ :=
    List.exists_cons_of_ne_nil (List.ne_nil_of_mem program.halts)
  have first := opened_header (arm_block (.ofInstr program 0 instr)) (if_line_spells (armTest 0))
  have arms := opened_arms program instrs 1 (by decide) first
  have whole := opened_turn (body_block .halt) arms else_line_spells
  have edits : target.armEdits program 0 program.code ++ otherEdits =
      (.line (ifLine (armTest 0)) :: Edit.nested (.line (Simple.increment .steps).text ::
        (body (.ofInstr program 0 instr)).1.flatMap Stmt.edits) ++
        target.armEdits program 1 instrs ++
        .line (elseText ++ "\x7b") :: Edit.nested ((body .halt).1.flatMap Stmt.edits)) ++
          [closeLine] := by
    rw [shape, Target.armEdits, arm_edits]
    simp [armText, otherEdits, body]
  rw [edits]
  exact statement_of_opened whole

theorem loop_block (program : Program) : Block braces (loopEdits program) := by
  have header : Spells ("while (" ++ (loopTest program).text ++ ") \x7b") false true false := by
    have clean : Text.newline ∉ "while (" ++ (loopTest program).text ++ ") \x7b" := by
      simp +decide [expr_clean]
    exact spells_plain clean rfl (ends_append _ rfl)
  have looped := statement_braced (arms_statement program).block header
  have limit := statement_line (simple_spells (fail .stepLimit))
  simpa [loopEdits, closeLine] using block_append looped limit.block

theorem head_spells (name : Text) (clean : Text.newline ∉ name) :
    Spells (headText name) false true false := by
  have line : Text.newline ∉ headText name := by simp +decide [headText, clean]
  exact spells_plain line rfl (ends_append _ rfl)

theorem source_braced (name : Text) (clean : Text.newline ∉ name) (program : Program) :
    Block braces (Language.java.target.source name program) ∧
      Braced (rowsAt 0 (Language.java.target.source name program)) := by
  have declarations : ∀ text ∈ locals.map Declaration.text, Spells text false false false := by
    intro text member
    obtain ⟨declaration, -, rfl⟩ := List.mem_map.mp member
    exact declaration_spells declaration
  have declared := statement_lines declarations
  have inside := block_append declared (loop_block program)
  have whole := definition_braced (List.forall_mem_nil _) (head_spells name clean) inside
  rw [source_edits]
  exact whole

end StackMachine.Java

import StackMachine.Proofs.Layout.Braces
import StackMachine.Proofs.Rust.Reading

/-!
# Braces of rendered Rust

Each arm of the match closes on a line of its own, so arms follow one another as statements do. An
attribute stands above the function, outside of every brace.
-/

namespace StackMachine.Rust

open StackMachine.Render StackMachine.Render.Rust StackMachine.Layout

set_option autoImplicit false

theorem var_clean (name : Var) : Text.newline ∉ name.text := by
  cases name <;> decide

theorem wrapping_clean (method : Wrapping) : Text.newline ∉ method.text := by
  cases method <;> decide

theorem relation_clean (relation : Relation) : Text.newline ∉ relation.text := by
  cases relation <;> decide

theorem expr_clean (expr : Expr) : Text.newline ∉ expr.text := by
  induction expr with
  | var name => exact var_clean name
  | int value => exact int_clean value
  | minimum => decide
  | typedInt value => simp +decide [Expr.text, int_clean]
  | length list | isEmpty list | pop list => simp +decide [Expr.text, var_clean]
  | wrappingNeg _ ih | wrappingAbs _ ih | group _ ih | toI64 _ ih | toUsize _ ih | unwrap _ ih =>
      simp +decide [Expr.text, ih]
  | element _ _ ih => simp +decide [Expr.text, var_clean, ih]
  | remEuclid _ _ left right | sub _ _ left right => simp +decide [Expr.text, left, right]
  | wrapping method _ _ left right => simp +decide [Expr.text, wrapping_clean, left, right]
  | compare relation _ _ left right => simp +decide [Expr.text, relation_clean, left, right]
  | choice _ _ _ test value other => simp +decide [Expr.text, test, value, other]

theorem pair_clean (status : Status) (value : Expr) : Text.newline ∉ pair status value := by
  simp +decide [pair, nat_clean, expr_clean]

theorem simple_clean (stmt : Simple) : Text.newline ∉ stmt.text := by
  cases stmt <;> simp +decide [Simple.text, var_clean, expr_clean, pair_clean]

def answers : Simple → Bool
  | .answer _ _ => true
  | .bind _ _ | .discard _ | .assign _ _ | .increment _ | .push _ _ | .swap _ _ _ => false

theorem begins_with_var (name : Var) (rest : Text) :
    beginsPlainly (name.text ++ rest) = true :=
  begins_plainly_append (by cases name <;> decide) rest

theorem simple_spells (stmt : Simple) : Spells stmt.text false false (answers stmt) := by
  have clean := simple_clean stmt
  cases stmt with
  | bind name value | discard value => exact spells_plain clean rfl (ends_append _ rfl)
  | assign name value | increment name | push name value | swap name first second =>
      refine spells_plain clean ?_ (ends_append _ rfl)
      simp only [Simple.text, List.append_assoc]
      exact begins_with_var name _
  | answer status value => exact spells_return clean rfl (ends_append _ rfl) (by decide)

theorem if_line_spells (test : Expr) : Spells (ifLine test) false true false := by
  have clean : Text.newline ∉ ifLine test := by simp +decide [ifLine, expr_clean]
  exact spells_plain clean rfl (ends_append _ rfl)

theorem declaration_spells (declaration : Declaration) :
    Spells declaration.text false false false := by
  have clean : Text.newline ∉ declaration.text := by
    cases declaration <;> simp +decide [Declaration.text, var_clean, int_clean]
  cases declaration with
  | emptyVec | usize | i64 => exact spells_plain clean rfl (ends_append _ rfl)

def leaves : Stmt → Bool
  | .simple stmt => answers stmt
  | .ifThen _ _ | .ifElse _ _ _ => false

/-- Nothing follows a return inside the statement. -/
def isTidy : Stmt → Bool
  | .simple _ => true
  | .ifThen _ body => returnsLast answers body
  | .ifElse _ body other => returnsLast answers body && returnsLast answers other

theorem simples_block (body : List Simple) (last : returnsLast answers body = true) :
    Block braces (Simple.edits body) := by
  rw [Simple.edits, List.map_eq_flatMap]
  exact block_sequence _ answers body last fun stmt _ => statement_line (simple_spells stmt)

theorem stmt_statement (stmt : Stmt) (tidy : isTidy stmt = true) :
    Layout.Statement braces stmt.edits (leaves stmt) := by
  cases stmt with
  | simple stmt => exact statement_line (simple_spells stmt)
  | ifThen test body => exact statement_braced (simples_block body tidy) (if_line_spells test)
  | ifElse test body other =>
      rw [isTidy, Bool.and_eq_true] at tidy
      have opened := opened_header (simples_block body tidy.1) (if_line_spells test)
      have turn : Spells "\x7d else \x7b" true true false := spells_turn (by decide) rfl rfl
      have turned := opened_turn (simples_block other tidy.2) opened turn
      exact statement_of_opened turned

theorem body_tidy (action : Action) :
    returnsLast leaves (body action).1 = true ∧ (body action).1.all isTidy = true := by
  cases action with
  | halt | pushConst => exact ⟨rfl, rfl⟩
  | loadInput index mode next =>
      cases mode with
      | cyclic => exact ⟨rfl, rfl⟩
      | direct =>
          simp only [body, loadInput]
          split <;> exact ⟨rfl, rfl⟩
  | binary opcode next =>
      cases opcode with
      | binary op => cases op <;> exact ⟨rfl, rfl⟩
      | _ => exact ⟨rfl, rfl⟩
  | unary opcode next => cases opcode <;> exact ⟨rfl, rfl⟩
  | stack opcode next =>
      cases opcode with
      | stack op => cases op <;> exact ⟨rfl, rfl⟩
      | _ => exact ⟨rfl, rfl⟩
  | jump target => cases target <;> exact ⟨rfl, rfl⟩
  | branch opcode target next => cases opcode <;> cases target <;> exact ⟨rfl, rfl⟩

theorem body_block (action : Action) : Block braces ((body action).1.flatMap Stmt.edits) := by
  obtain ⟨last, tidy⟩ := body_tidy action
  rw [List.all_eq_true] at tidy
  exact block_sequence Stmt.edits leaves _ last fun stmt member =>
    stmt_statement stmt (tidy stmt member)

theorem arm_statement (pc : Int) (action : Action) :
    Layout.Statement braces (target.arm pc false ++ (target.action action).1 ++ target.endArm)
      false := by
  have clean : Text.newline ∉ Decimal.ofInt pc ++ " => \x7b" := by simp +decide [int_clean]
  have header : Spells (Decimal.ofInt pc ++ " => \x7b") false true false :=
    spells_plain clean (begins_plainly_append (begins_plainly_of_int pc) _) (ends_append _ rfl)
  have counted := statement_line (simple_spells (.increment .steps))
  have acted := block_append counted (body_block action)
  simpa [target, arm, Edit.nested, closeLine] using statement_braced acted header

theorem arms_block (program : Program) (pc : Nat) (instrs : List Instr) :
    Block braces (target.armEdits program pc instrs ++ otherEdits) := by
  induction instrs generalizing pc with
  | nil =>
      have clean : Text.newline ∉ Text.ascii "_ => \x7b" := by decide
      have header : Spells "_ => \x7b" false true false := spells_plain clean rfl rfl
      exact (statement_braced (body_block .halt) header).block
  | cons instr instrs ih =>
      have first := arm_statement pc (.ofInstr program pc instr)
      rw [Target.armEdits, List.append_assoc]
      exact block_append first (ih (pc + 1))

theorem loop_statement (program : Program) : Layout.Statement braces (loopEdits program) false := by
  have matchClean : Text.newline ∉ Text.ascii "match pc \x7b" := by decide
  have matchLine : Spells "match pc \x7b" false true false := spells_plain matchClean rfl rfl
  have clean : Text.newline ∉ loopText program := by simp +decide [loopText, expr_clean]
  have loopLine : Spells (loopText program) false true false :=
    spells_plain clean rfl (ends_append _ rfl)
  have arms := statement_braced (arms_block program 0 program.code) matchLine
  exact statement_braced arms.block loopLine

def attributes : Text :=
  "#[allow(unused_mut, unused_assignments, unused_variables, unreachable_code)]"

theorem source_braced (name : Text) (clean : Text.newline ∉ name) (program : Program) :
    Block braces (Language.rust.target.source name program) ∧
      Braced (rowsAt 0 (Language.rust.target.source name program)) := by
  have outside : ∀ text ∈ [attributes], Spells text false false false := by
    intro text member
    have clean : Text.newline ∉ attributes := by decide
    rw [List.mem_singleton.mp member]
    exact spells_plain clean rfl rfl
  have declarations : ∀ text ∈ locals.map Declaration.text, Spells text false false false := by
    intro text member
    obtain ⟨declaration, -, rfl⟩ := List.mem_map.mp member
    exact declaration_spells declaration
  have header : Spells (headText name) false true false := by
    have line : Text.newline ∉ headText name := by simp +decide [headText, clean]
    exact spells_plain line rfl (ends_append _ rfl)
  have limit : Spells (pair .stepLimit (.int 0)) false false false :=
    spells_plain (pair_clean _ _) rfl (ends_append _ rfl)
  have declared := statement_lines declarations
  have looped := loop_statement program
  have inside := block_append declared (block_append looped (statement_line limit).block)
  rw [← List.append_assoc] at inside
  have whole := definition_braced outside header inside
  rw [source_edits]
  exact whole

end StackMachine.Rust

import Mathlib.Data.Int.Bitwise
import StackMachine.Proofs.Python.Syntax
import StackMachine.Proofs.Source.Run

/-!
# What Python text does

Python's meaning of the statements that rendered programs use. Integers are unbounded, a quotient is
rounded downwards and a remainder takes the sign of the divisor, `&` acts on two's complement, and a
negative index counts from the end of a list. A truth value is the integer zero or one. Whatever
raises an exception is a fault.

The built-in functions are found through a global name, as it stood when the calling function was
made. So a function that is bound to that very name still finds them, and the functions inside it,
which are made later, do not.
-/

namespace StackMachine.Python

open StackMachine.Render.Python StackMachine.Source

set_option autoImplicit false

/-- A list keeps its elements in the order of their indices. -/
inductive Value where
  | int (value : Int)
  | list (elements : List Int)
  | pair (first second : Int)
deriving DecidableEq, Repr

inductive Fault where
  /-- The text is no program of the forms that are read here. -/
  | unreadable
  | unbound
  | type
  | index
  | zeroDivision
deriving DecidableEq, Repr

abbrev Scope := Var → Option Value

namespace Scope

def empty : Scope := fun _ => none

def set (scope : Scope) (name : Var) (value : Value) : Scope := fun other =>
  if other = name then some value else scope other

def value (scope : Scope) (name : Var) : Except Fault Value :=
  match scope name with
  | some value => .ok value
  | none => .error .unbound

def bind? : List Var → List Value → Option Scope
  | [], [] => some empty
  | name :: names, value :: values => (bind? names values).map fun scope => scope.set name value
  | _, _ => none

end Scope

namespace Value

def toInt : Value → Except Fault Int
  | .int value => .ok value
  | .list _ | .pair _ _ => .error .type

def elements : Value → Except Fault (List Int)
  | .list elements => .ok elements
  | .int _ | .pair _ _ => .error .type

def ofBool (condition : Bool) : Value := .int (if condition then 1 else 0)

/-- Zero and the empty list count as false. -/
def truth : Value → Bool
  | .int value => value != 0
  | .list elements => !elements.isEmpty
  | .pair _ _ => true

end Value

def operate (operator : Operator) (left right : Int) : Except Fault Int :=
  match operator with
  | .add => .ok (left + right)
  | .sub => .ok (left - right)
  | .mul => .ok (left * right)
  | .floorDiv => if right = 0 then .error .zeroDivision else .ok (left.fdiv right)
  | .mod => if right = 0 then .error .zeroDivision else .ok (left.fmod right)

def relate (relation : Relation) (left right : Int) : Bool :=
  match relation with
  | .eq => left == right
  | .ne => left != right
  | .lt => left < right
  | .gt => left > right
  | .ge => left ≥ right

/-- The element that an index selects. -/
def position (length : Nat) (index : Int) : Except Fault Nat :=
  let shifted := if index < 0 then index + length else index
  if 0 ≤ shifted ∧ shifted < length then .ok shifted.toNat else .error .index

def elementAt (elements : List Int) (index : Int) : Except Fault Int :=
  (position elements.length index).bind fun place =>
    match elements[place]? with
    | some element => .ok element
    | none => .error .index

def setElement (elements : List Int) (index value : Int) : Except Fault (List Int) :=
  (position elements.length index).map fun place => elements.set place value

/-- What calling a function by its name gives. -/
abbrev Calls := Text → List Value → Except Fault Value

/-- The built-in functions of one argument that these texts call. -/
def builtin : Calls := fun name arguments =>
  match arguments with
  | [value] =>
      if name = Word.abs.text then do .ok (.int (← value.toInt).natAbs)
      else if name = Word.len.text then do .ok (.int (← value.elements).length)
      else .error .unbound
  | _ => .error .type

section

variable (calls : Calls)

/-- The value of an expression and the scope after it. A list is no value of a variable here, so that
no two variables come to share one. -/
@[simp]
def eval : Expr → Scope → Except Fault (Value × Scope)
  | .var name, scope => do .ok (.int (← (← scope.value name).toInt), scope)
  | .true, scope => .ok (.ofBool true, scope)
  | .int value, scope => .ok (.int value, scope)
  | .hex value, scope => .ok (.int value, scope)
  | .neg operand, scope => do
      let (value, scope) ← eval operand scope
      .ok (.int (-(← value.toInt)), scope)
  | .abs operand, scope => do
      let (value, scope) ← eval operand scope
      .ok (← calls Word.abs.text [value], scope)
  | .wrap operand, scope => do
      let (value, scope) ← eval operand scope
      .ok (← calls Word.wrap.text [value], scope)
  | .truncDiv left right, scope => do
      let (left, scope) ← eval left scope
      let (right, scope) ← eval right scope
      .ok (← calls Word.truncDiv.text [left, right], scope)
  | .arith operator left right, scope => do
      let (left, scope) ← eval left scope
      let (right, scope) ← eval right scope
      .ok (.int (← operate operator (← left.toInt) (← right.toInt)), scope)
  | .compare relation left right, scope => do
      let (left, scope) ← eval left scope
      let (right, scope) ← eval right scope
      .ok (.ofBool (relate relation (← left.toInt) (← right.toInt)), scope)
  | .isEmpty list, scope => do .ok (.ofBool !(← scope.value list).truth, scope)
  | .length list, scope => do .ok (← calls Word.len.text [← scope.value list], scope)
  | .element list index, scope => do
      let elements ← (← scope.value list).elements
      let (index, scope) ← eval index scope
      .ok (.int (← elementAt elements (← index.toInt)), scope)
  | .removeLast list, scope => do
      let elements ← (← scope.value list).elements
      .ok (.int (← elementAt elements (-1)), scope.set list (.list elements.dropLast))
  | .conditional value test other, scope => do
      let (condition, scope) ← eval test scope
      if condition.truth then eval value scope else eval other scope
  | .group inner, scope => eval inner scope

end

section

variable {calls : Calls} {scope : Scope}

theorem eval_var {name : Var} {value : Int} (known : scope name = some (.int value)) :
    eval calls (.var name) scope = .ok (.int value, scope) := by
  rw [eval, Scope.value, known]
  rfl

theorem eval_neg {operand : Expr} {value : Int}
    (operandIs : eval calls operand scope = .ok (.int value, scope)) :
    eval calls (.neg operand) scope = .ok (.int (-value), scope) := by
  rw [eval, operandIs]
  rfl

theorem eval_abs {operand : Expr} {value result : Value}
    (operandIs : eval calls operand scope = .ok (value, scope))
    (called : calls Word.abs.text [value] = .ok result) :
    eval calls (.abs operand) scope = .ok (result, scope) := by
  rw [eval, operandIs]
  simp only [bind, Except.bind, called]

theorem eval_wrap {operand : Expr} {value result : Value}
    (operandIs : eval calls operand scope = .ok (value, scope))
    (called : calls Word.wrap.text [value] = .ok result) :
    eval calls (.wrap operand) scope = .ok (result, scope) := by
  rw [eval, operandIs]
  simp only [bind, Except.bind, called]

theorem eval_trunc_div {left right : Expr} {dividend divisor result : Value}
    (leftIs : eval calls left scope = .ok (dividend, scope))
    (rightIs : eval calls right scope = .ok (divisor, scope))
    (called : calls Word.truncDiv.text [dividend, divisor] = .ok result) :
    eval calls (.truncDiv left right) scope = .ok (result, scope) := by
  rw [eval, leftIs]
  simp only [bind, Except.bind, rightIs, called]

theorem eval_arith {operator : Operator} {left right : Expr} {leftValue rightValue result : Int}
    (leftIs : eval calls left scope = .ok (.int leftValue, scope))
    (rightIs : eval calls right scope = .ok (.int rightValue, scope))
    (operated : operate operator leftValue rightValue = .ok result) :
    eval calls (.arith operator left right) scope = .ok (.int result, scope) := by
  rw [eval, leftIs]
  simp only [bind, Except.bind, rightIs, Value.toInt, operated]

theorem eval_compare (relation : Relation) {left right : Expr} {leftValue rightValue : Int}
    (leftIs : eval calls left scope = .ok (.int leftValue, scope))
    (rightIs : eval calls right scope = .ok (.int rightValue, scope)) :
    eval calls (.compare relation left right) scope =
      .ok (.ofBool (relate relation leftValue rightValue), scope) := by
  rw [eval, leftIs]
  simp only [bind, Except.bind, rightIs, Value.toInt]

theorem truth_of_bool (condition : Bool) : (Value.ofBool condition).truth = condition := by
  cases condition <;> rfl

theorem eval_conditional {value test other : Expr} {condition : Bool}
    (testIs : eval calls test scope = .ok (.ofBool condition, scope)) :
    eval calls (.conditional value test other) scope =
      if condition then eval calls value scope else eval calls other scope := by
  rw [eval, testIs]
  simp only [bind, Except.bind, truth_of_bool]

theorem eval_length {list : Var} {elements : List Int} {result : Value}
    (known : scope list = some (.list elements))
    (called : calls Word.len.text [.list elements] = .ok result) :
    eval calls (.length list) scope = .ok (result, scope) := by
  rw [eval, Scope.value, known]
  simp only [bind, Except.bind, called]

theorem eval_is_empty {list : Var} {elements : List Int}
    (known : scope list = some (.list elements)) :
    eval calls (.isEmpty list) scope = .ok (.ofBool elements.isEmpty, scope) := by
  rw [eval, Scope.value, known]
  simp [bind, Except.bind, Value.truth]

theorem eval_element {list : Var} {elements : List Int} {index : Expr} {place element : Int}
    (known : scope list = some (.list elements))
    (indexIs : eval calls index scope = .ok (.int place, scope))
    (selected : elementAt elements place = .ok element) :
    eval calls (.element list index) scope = .ok (.int element, scope) := by
  rw [eval, Scope.value, known]
  simp only [bind, Except.bind, Value.elements, indexIs, Value.toInt, selected]

end

abbrev Ran (State : Type) := Outcome State Value Fault

def attempt {Item State : Type} (computed : Except Fault Item) (rest : Item → Ran State) :
    Ran State :=
  match computed with
  | .ok item => rest item
  | .error fault => .failed fault

/-- What one statement does to a scope. -/
def perform (calls : Calls) : Simple → Scope → Ran Scope
  | .assign name value, scope =>
      attempt (eval calls value scope) fun (value, scope) => .next (scope.set name value)
  | .emptyList name, scope => .next (scope.set name (.list []))
  | .increment name, scope =>
      attempt ((scope.value name).bind Value.toInt) fun value =>
        .next (scope.set name (.int (value + 1)))
  | .mask name bits, scope =>
      attempt ((scope.value name).bind Value.toInt) fun value =>
        attempt (eval calls bits scope) fun (bits, scope) =>
          attempt bits.toInt fun bits => .next (scope.set name (.int (Int.land value bits)))
  | .append list value, scope =>
      attempt (eval calls value scope) fun (value, scope) =>
        attempt ((scope.value list).bind Value.elements) fun elements =>
          attempt value.toInt fun value => .next (scope.set list (.list (elements ++ [value])))
  | .discard value, scope => attempt (eval calls value scope) fun (_, scope) => .next scope
  | .exchange list first second, scope =>
      attempt ((scope.value list).bind Value.elements) fun elements =>
        attempt (eval calls first scope) fun (first, scope) =>
          attempt (eval calls second scope) fun (second, scope) =>
            attempt (do
              let first ← first.toInt
              let second ← second.toInt
              let left ← elementAt elements second
              let right ← elementAt elements first
              setElement (← setElement elements first left) second right) fun elements =>
                .next (scope.set list (.list elements))
  | .ret value, scope => attempt (eval calls value scope) fun (value, _) => .returned value
  | .answer status value, scope =>
      attempt (eval calls value scope) fun (value, _) =>
        attempt value.toInt fun value => .returned (.pair status.code value)

def performAll (calls : Calls) : List Simple → Scope → Ran Scope
  | [], scope => .next scope
  | stmt :: rest, scope => (perform calls stmt scope).andThen (performAll calls rest)

/-- The functions in reach of the running function: its own helpers, and the built-in ones. A helper
is a row of statements that calls no other helper, and finds the functions `inner`. -/
def callHelper (inner : Calls) (helpers : List Helper) : Calls := fun name arguments =>
  match helpers.find? fun helper => helper.name = name with
  | none => builtin name arguments
  | some helper =>
      match Scope.bind? helper.parameters arguments with
      | none => .error .type
      | some scope =>
          match performAll inner helper.body scope with
          | .returned value => .ok value
          | .failed fault => .error fault
          | .next _ | .unfinished => .error .type

section

variable {inner : Calls} {helpers : List Helper} {helper : Helper} {name : Text}
  {arguments : List Value} {scope : Scope}

theorem call_helper {value : Value}
    (found : (helpers.find? fun helper => helper.name = name) = some helper)
    (bound : Scope.bind? helper.parameters arguments = some scope)
    (ran : performAll inner helper.body scope = .returned value) :
    callHelper inner helpers name arguments = .ok value := by
  simp only [callHelper, found, bound, ran]

theorem call_helper_failed {fault : Fault}
    (found : (helpers.find? fun helper => helper.name = name) = some helper)
    (bound : Scope.bind? helper.parameters arguments = some scope)
    (ran : performAll inner helper.body scope = .failed fault) :
    callHelper inner helpers name arguments = .error fault := by
  simp only [callHelper, found, bound, ran]

end

/-- The variables of the running function, and the functions defined in it, latest first. -/
structure State where
  scope : Scope
  helpers : List Helper

def rowOf? : Code Simple Expr Head → Option (List Simple)
  | .done => some []
  | .simple stmt rest => (rowOf? rest).map fun stmts => stmt :: stmts
  | .branch _ _ _ _ | .loop _ _ _ | .define _ _ _ => none

/-- A block is no scope of its own in Python, so that nothing is lost when it is left. -/
def meaning (inner : Calls) : Meaning Simple Expr Head State Value Fault where
  stmt stmt state :=
    (perform (callHelper inner state.helpers) stmt state.scope).andThen fun scope =>
      .next { state with scope := scope }
  test test state :=
    (eval (callHelper inner state.helpers) test state.scope).map fun (value, scope) =>
      (value.truth, { state with scope := scope })
  define head body state :=
    match rowOf? body with
    | some stmts =>
        .next { state with helpers := ⟨head.name, head.parameters, stmts⟩ :: state.helpers }
    | none => .failed .unreadable
  leave _ after := after

/-- The global name that leads to the built-in functions. -/
def builtinsName : Text := "__builtins__"

def nowhere : Calls := fun _ _ => .error .type

/-- What a function finds that is made after a function was bound to the global name. -/
def innerCalls (bound : Text) : Calls := if bound = builtinsName then nowhere else builtin

/-- Runs a text that defines one function, and calls that function by its name. -/
def call (fuel : Nat) (text name : Text) (arguments : List Value) : Ran State :=
  match read text with
  | some (.define head body .done) =>
      if head.name = name then
        match Scope.bind? head.parameters arguments with
        | some scope => body.exec (meaning (innerCalls head.name)) fuel ⟨scope, []⟩
        | none => .failed .type
      else .failed .unbound
  | _ => .failed .unreadable

end StackMachine.Python

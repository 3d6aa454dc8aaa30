import StackMachine.Proofs.Java.Syntax
import StackMachine.Proofs.Source.Run
import StackMachine.Proofs.Source.Scope

/-!
# What Java text does

Java's meaning of the statements that rendered methods use. An `int` has 32 bits and a `long` 64;
arithmetic is done in the wider type of its operands and wraps there, a quotient is rounded towards
zero, and `Math.floorMod` downwards. An array is accessed within its bounds or not at all. A
variable belongs to the block that declares it. Whatever throws an exception is a fault, and so is
whatever a compiler would refuse on the way.
-/

namespace StackMachine.Java

open StackMachine.Render.Java StackMachine.Source

set_option autoImplicit false

inductive Value where
  | int (value : Int32)
  | long (value : Int64)
  | truth (condition : Bool)
  | array (elements : List Int64)
deriving DecidableEq, Repr

inductive Fault where
  /-- The text is no method of the forms that are read here. -/
  | unreadable
  | unbound
  | redeclared
  | type
  | index
  | negativeSize
  | zeroDivision
deriving DecidableEq, Repr

abbrev Scope := Source.Scope Var Value

def valueOf (scope : Scope) (name : Var) : Except Fault Value :=
  match scope.find name with
  | some value => .ok value
  | none => .error .unbound

/-- A number and whether it is of the wider type. -/
structure Number where
  wide : Bool
  value : Int

/-- The number that the type can hold, with the same low bits. -/
def Number.wrap (number : Number) : Value :=
  if number.wide then .long (Int64.ofInt number.value) else .int (Int32.ofInt number.value)

namespace Value

def number : Value → Except Fault Number
  | .int value => .ok ⟨false, value.toInt⟩
  | .long value => .ok ⟨true, value.toInt⟩
  | .truth _ | .array _ => .error .type

def condition : Value → Except Fault Bool
  | .truth condition => .ok condition
  | .int _ | .long _ | .array _ => .error .type

def elements : Value → Except Fault (List Int64)
  | .array elements => .ok elements
  | .int _ | .long _ | .truth _ => .error .type

/-- An index or a size has to be of the narrow type. -/
def small : Value → Except Fault Int
  | .int value => .ok value.toInt
  | .long _ | .truth _ | .array _ => .error .type

/-- A number widens on its way into a `long`. -/
def wide : Value → Except Fault Int64
  | .int value => .ok (Int64.ofInt value.toInt)
  | .long value => .ok value
  | .truth _ | .array _ => .error .type

/-- The value that a variable takes on when it is assigned another one. -/
def assigned (before after : Value) : Except Fault Value :=
  match before, after with
  | .int _, .int value => .ok (.int value)
  | .long _, after => after.wide.map .long
  | .array _, .array elements => .ok (.array elements)
  | _, _ => .error .type

end Value

def operate (operator : Operator) (left right : Number) : Except Fault Value :=
  let make (value : Int) : Value := Number.wrap ⟨left.wide || right.wide, value⟩
  match operator with
  | .add => .ok (make (left.value + right.value))
  | .sub => .ok (make (left.value - right.value))
  | .mul => .ok (make (left.value * right.value))
  | .div =>
      if right.value = 0 then .error .zeroDivision
      else .ok (make (left.value.tdiv right.value))
  | .mod =>
      if right.value = 0 then .error .zeroDivision
      else .ok (make (left.value.tmod right.value))

def relate (relation : Relation) (left right : Int) : Bool :=
  match relation with
  | .eq => left == right
  | .ne => left != right
  | .lt => left < right
  | .gt => left > right
  | .ge => left ≥ right

/-- `Math.floorMod` on two numbers of one type. -/
def floorRemainder (left right : Number) : Except Fault Value :=
  if left.wide ≠ right.wide then .error .type
  else if right.value = 0 then .error .zeroDivision
  else .ok (Number.wrap ⟨left.wide, left.value.fmod right.value⟩)

def elementAt (elements : List Int64) (index : Int) : Except Fault Int64 :=
  if index < 0 then .error .index
  else
    match elements[index.toNat]? with
    | some element => .ok element
    | none => .error .index

def setElement (elements : List Int64) (index : Int) (value : Int64) : Except Fault (List Int64) :=
  if 0 ≤ index ∧ index < elements.length then .ok (elements.set index.toNat value)
  else .error .index

/-- `Arrays.copyOf`: cut off or filled up with zeros. -/
def resized (elements : List Int64) (size : Int) : Except Fault (List Int64) :=
  if size < 0 then .error .negativeSize
  else .ok (elements.take size.toNat ++ List.replicate (size.toNat - elements.length) 0)

/-- Adds to a numeric variable within its type. -/
def shifted (scope : Scope) (name : Var) (difference : Int) : Except Fault Scope := do
  let number ← (← valueOf scope name).number
  .ok (scope.set name (Number.wrap ⟨number.wide, number.value + difference⟩))

/-- The value of an expression and the scope after it. An array is no value of a variable here, so
that no two variables come to share one. -/
@[simp]
def eval : Expr → Scope → Except Fault (Value × Scope)
  | .var name, scope => do
      let number ← (← valueOf scope name).number
      .ok (number.wrap, scope)
  | .int value, scope => .ok (.int (Int32.ofInt value), scope)
  | .long value, scope => .ok (.long value, scope)
  | .neg operand, scope => do
      let (value, scope) ← eval operand scope
      let number ← value.number
      .ok (Number.wrap ⟨number.wide, -number.value⟩, scope)
  | .abs operand, scope => do
      let (value, scope) ← eval operand scope
      let number ← value.number
      .ok (Number.wrap ⟨number.wide, number.value.natAbs⟩, scope)
  | .floorMod left right, scope => do
      let (left, scope) ← eval left scope
      let (right, scope) ← eval right scope
      .ok (← floorRemainder (← left.number) (← right.number), scope)
  | .arith operator left right, scope => do
      let (left, scope) ← eval left scope
      let (right, scope) ← eval right scope
      .ok (← operate operator (← left.number) (← right.number), scope)
  | .compare relation left right, scope => do
      let (left, scope) ← eval left scope
      let (right, scope) ← eval right scope
      .ok (.truth (relate relation (← left.number).value (← right.number).value), scope)
  | .choice test value other, scope => do
      let (test, scope) ← eval test scope
      if ← test.condition then eval value scope else eval other scope
  | .group inner, scope => eval inner scope
  | .toInt operand, scope => do
      let (value, scope) ← eval operand scope
      .ok (Number.wrap ⟨false, (← value.number).value⟩, scope)
  | .toLong operand, scope => do
      let (value, scope) ← eval operand scope
      .ok (Number.wrap ⟨true, (← value.number).value⟩, scope)
  | .length array, scope => do
      .ok (.int (Int32.ofInt (← (← valueOf scope array).elements).length), scope)
  | .element array index, scope => do
      let elements ← (← valueOf scope array).elements
      let (index, scope) ← eval index scope
      .ok (.long (← elementAt elements (← index.small)), scope)
  | .lowered name, scope => do
      let scope ← shifted scope name (-1)
      .ok (← valueOf scope name, scope)
  | .raised name, scope => do
      let before ← valueOf scope name
      .ok (before, ← shifted scope name 1)
  | .copyOf array size, scope => do
      let elements ← (← valueOf scope array).elements
      let (size, scope) ← eval size scope
      .ok (.array (← resized elements (← size.small)), scope)

abbrev Ran := Outcome Scope (List Int64) Fault

def attempt {Item : Type} (computed : Except Fault Item) (rest : Item → Ran) : Ran :=
  match computed with
  | .ok item => rest item
  | .error fault => .failed fault

/-- A name is declared once in its block and the blocks around it. -/
def declare (scope : Scope) (name : Var) (value : Value) : Ran :=
  if (scope.find name).isNone then .next ((name, value) :: scope) else .failed .redeclared

def perform : Statement → Scope → Ran
  | .plain (.declare name value), scope =>
      attempt (eval value scope) fun (value, scope) =>
        attempt value.wide fun value => declare scope name (.long value)
  | .plain (.assign name value), scope =>
      attempt (valueOf scope name) fun before =>
        attempt (eval value scope) fun (value, scope) =>
          attempt (before.assigned value) fun value => .next (scope.set name value)
  | .plain (.store array index value), scope =>
      attempt (eval index scope) fun (index, scope) =>
        attempt index.small fun index =>
          attempt (eval value scope) fun (value, scope) =>
            attempt value.wide fun value =>
              attempt ((valueOf scope array).bind Value.elements) fun elements =>
                attempt (setElement elements index value) fun elements =>
                  .next (scope.set array (.array elements))
  | .plain (.increment name), scope => attempt (shifted scope name 1) .next
  | .plain (.decrement name), scope => attempt (shifted scope name (-1)) .next
  | .plain (.answer status value), scope =>
      attempt (eval value scope) fun (value, _) =>
        attempt value.wide fun value => .returned [Int64.ofInt status.code, value]
  | .initial (.array name size), scope => declare scope name (.array (List.replicate size 0))
  | .initial (.int name value), scope => declare scope name (.int (Int32.ofInt value))
  | .initial (.long name value), scope => declare scope name (.long value)

def meaning : Meaning Statement Expr Head Scope (List Int64) Fault where
  stmt := perform
  test test scope := do
    let (value, scope) ← eval test scope
    .ok (← value.condition, scope)
  define _ _ _ := .failed .unreadable
  leave := Source.Scope.leave

/-- Runs a text that is one method, and calls that method by its name. -/
def call (fuel : Nat) (text name : Text) (inputs : List Int64) : Ran :=
  match read text with
  | some (.define head body .done) =>
      if head.name = name then
        body.exec meaning fuel [(head.parameter, .array inputs)]
      else .failed .unbound
  | _ => .failed .unreadable

end StackMachine.Java

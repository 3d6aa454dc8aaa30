import Mathlib.Algebra.Group.Int.Defs
import Mathlib.Algebra.Group.Nat.Defs
import StackMachine.Proofs.Rust.Layout
import StackMachine.Proofs.Source.Run
import StackMachine.Proofs.Source.Scope

/-!
# What Rust text does

Rust's meaning of the statements that rendered functions use. An `i64` and a `usize` have 64 bits
each and do not mix; a literal takes on the type of what it meets, if it fits. The wrapping methods
wrap, and any other arithmetic that leaves its type panics, as do a division by zero, an index that is
out of bounds and the content of an empty option. A variable belongs to the block that binds it and
changes only if it is bound as mutable; a later binding may hide an earlier one. Whatever panics is a
fault, and so is whatever a compiler would refuse on the way.
-/

namespace StackMachine.Rust

open StackMachine.Render.Rust StackMachine.Source

set_option autoImplicit false

inductive Value where
  | i64 (value : Int64)
  | usize (value : UInt64)
  /-- A literal that has not met a type yet. -/
  | literal (value : Int)
  | truth (condition : Bool)
  | optional (content : Option Int64)
  | list (elements : List Int64)
deriving DecidableEq, Repr

inductive Fault where
  /-- The text is no function of the forms that are read here. -/
  | unreadable
  | unbound
  | immutable
  | type
  | literalRange
  /-- The panics. -/
  | emptyOption | index | overflow | zeroDivision
deriving DecidableEq, Repr

structure Binding where
  isMutable : Bool
  value : Value
deriving DecidableEq, Repr

abbrev Scope := Source.Scope Var Binding

def valueOf (scope : Scope) (name : Var) : Except Fault Value :=
  match scope.find name with
  | some binding => .ok binding.value
  | none => .error .unbound

def change (scope : Scope) (name : Var) (value : Value) : Except Fault Scope :=
  match scope.find name with
  | some binding =>
      if binding.isMutable then .ok (scope.set name ⟨true, value⟩) else .error .immutable
  | none => .error .unbound

/-- The word with the same low bits. -/
def wrap (value : Int) : Int64 := Int64.ofInt value

namespace Value

/-- A value of type `i64`. -/
def signed : Value → Except Fault Int64
  | .i64 value => .ok value
  | .literal value =>
      if -2 ^ 63 ≤ value ∧ value < 2 ^ 63 then .ok (wrap value) else .error .literalRange
  | _ => .error .type

/-- A value of type `usize`. -/
def unsigned : Value → Except Fault UInt64
  | .usize value => .ok value
  | .literal value =>
      if 0 ≤ value ∧ value < 2 ^ 64 then .ok (UInt64.ofInt value) else .error .literalRange
  | _ => .error .type

/-- The receiver of a method has to have its type already. -/
def receiver : Value → Except Fault Int64
  | .i64 value => .ok value
  | _ => .error .type

def condition : Value → Except Fault Bool
  | .truth condition => .ok condition
  | _ => .error .type

def elements : Value → Except Fault (List Int64)
  | .list elements => .ok elements
  | _ => .error .type

/-- A number that a variable may be bound to or read for; anything else would move. -/
def copied : Value → Except Fault Value
  | .i64 value => .ok (.i64 value)
  | .usize value => .ok (.usize value)
  | _ => .error .type

def content : Value → Except Fault Int64
  | .optional (some value) => .ok value
  | .optional none => .error .emptyOption
  | _ => .error .type

/-- The value that a variable takes on when it is assigned another one. -/
def assigned (before after : Value) : Except Fault Value :=
  match before with
  | .i64 _ => after.signed.map .i64
  | .usize _ => after.unsigned.map .usize
  | _ => .error .type

def incremented : Value → Except Fault Value
  | .i64 value =>
      if value.toInt + 1 < 2 ^ 63 then .ok (.i64 (wrap (value.toInt + 1))) else .error .overflow
  | .usize value =>
      if value.toNat + 1 < 2 ^ 64 then .ok (.usize (UInt64.ofNat (value.toNat + 1)))
      else .error .overflow
  | _ => .error .type

def asSigned : Value → Except Fault Int64
  | .i64 value => .ok value
  | .usize value => .ok (wrap value.toNat)
  | _ => .error .type

def asUnsigned : Value → Except Fault UInt64
  | .usize value => .ok value
  | .i64 value => .ok (UInt64.ofInt value.toInt)
  | _ => .error .type

end Value

def applyWrapping (method : Wrapping) (left right : Int64) : Except Fault Int64 :=
  match method with
  | .add => .ok (wrap (left.toInt + right.toInt))
  | .sub => .ok (wrap (left.toInt - right.toInt))
  | .mul => .ok (wrap (left.toInt * right.toInt))
  | .div =>
      if right.toInt = 0 then .error .zeroDivision
      else .ok (wrap (left.toInt.tdiv right.toInt))
  | .rem =>
      if right.toInt = 0 then .error .zeroDivision
      else .ok (wrap (left.toInt.tmod right.toInt))

/-- The remainder that is never negative. -/
def euclideanRemainder (left right : Int64) : Except Fault Int64 :=
  if right.toInt = 0 then .error .zeroDivision
  else if left = Int64.minValue ∧ right.toInt = -1 then .error .overflow
  else .ok (wrap (left.toInt % right.toInt))

def relate (relation : Relation) (left right : Int) : Bool :=
  match relation with
  | .eq => left == right
  | .ne => left != right
  | .lt => left < right
  | .gt => left > right
  | .le => left ≤ right

/-- Both sides are of one type, which is that of the side that has one. -/
def relateValues (relation : Relation) (left right : Value) : Except Fault Bool :=
  match left, right with
  | .i64 _, _ | _, .i64 _ => do
      .ok (relate relation (← left.signed).toInt (← right.signed).toInt)
  | .usize _, _ | _, .usize _ => do
      .ok (relate relation (← left.unsigned).toNat (← right.unsigned).toNat)
  | _, _ => .error .type

def subtract (left right : Value) : Except Fault Value :=
  match left, right with
  | .i64 _, _ | _, .i64 _ => do
      let difference := (← left.signed).toInt - (← right.signed).toInt
      if -2 ^ 63 ≤ difference ∧ difference < 2 ^ 63 then .ok (.i64 (wrap difference))
      else .error .overflow
  | .usize _, _ | _, .usize _ => do
      let minuend := (← left.unsigned).toNat
      let subtrahend := (← right.unsigned).toNat
      if subtrahend ≤ minuend then .ok (.usize (UInt64.ofNat (minuend - subtrahend)))
      else .error .overflow
  | _, _ => .error .type

def elementAt (elements : List Int64) (index : UInt64) : Except Fault Int64 :=
  match elements[index.toNat]? with
  | some element => .ok element
  | none => .error .index

def exchanged (elements : List Int64) (first second : UInt64) : Except Fault (List Int64) :=
  match elements[first.toNat]?, elements[second.toNat]? with
  | some one, some other => .ok ((elements.set first.toNat other).set second.toNat one)
  | _, _ => .error .index

/-- The value of an expression and the scope after it. -/
@[simp]
def eval : Expr → Scope → Except Fault (Value × Scope)
  | .var name, scope => do .ok (← (← valueOf scope name).copied, scope)
  | .int value, scope => .ok (.literal value, scope)
  | .typedInt value, scope => do .ok (.i64 (← (Value.literal value).signed), scope)
  | .minimum, scope => .ok (.i64 Int64.minValue, scope)
  | .wrapping method receiver argument, scope => do
      let (receiver, scope) ← eval receiver scope
      let (argument, scope) ← eval argument scope
      .ok (.i64 (← applyWrapping method (← receiver.receiver) (← argument.signed)), scope)
  | .wrappingNeg receiver, scope => do
      let (receiver, scope) ← eval receiver scope
      .ok (.i64 (wrap (-(← receiver.receiver).toInt)), scope)
  | .wrappingAbs receiver, scope => do
      let (receiver, scope) ← eval receiver scope
      .ok (.i64 (wrap (← receiver.receiver).toInt.natAbs), scope)
  | .remEuclid receiver argument, scope => do
      let (receiver, scope) ← eval receiver scope
      let (argument, scope) ← eval argument scope
      .ok (.i64 (← euclideanRemainder (← receiver.receiver) (← argument.signed)), scope)
  | .sub left right, scope => do
      let (left, scope) ← eval left scope
      let (right, scope) ← eval right scope
      .ok (← subtract left right, scope)
  | .compare relation left right, scope => do
      let (left, scope) ← eval left scope
      let (right, scope) ← eval right scope
      .ok (.truth (← relateValues relation left right), scope)
  | .choice test value other, scope => do
      let (test, scope) ← eval test scope
      if ← test.condition then eval value scope else eval other scope
  | .group inner, scope => eval inner scope
  | .toI64 operand, scope => do
      let (value, scope) ← eval operand scope
      .ok (.i64 (← value.asSigned), scope)
  | .toUsize operand, scope => do
      let (value, scope) ← eval operand scope
      .ok (.usize (← value.asUnsigned), scope)
  | .length list, scope => do
      .ok (.usize (UInt64.ofNat (← (← valueOf scope list).elements).length), scope)
  | .isEmpty list, scope => do
      .ok (.truth (← (← valueOf scope list).elements).isEmpty, scope)
  | .element list index, scope => do
      let elements ← (← valueOf scope list).elements
      let (index, scope) ← eval index scope
      .ok (.i64 (← elementAt elements (← index.unsigned)), scope)
  | .pop list, scope => do
      let elements ← (← valueOf scope list).elements
      .ok (.optional elements.getLast?, ← change scope list (.list elements.dropLast))
  | .unwrap operand, scope => do
      let (value, scope) ← eval operand scope
      .ok (.i64 (← value.content), scope)

abbrev Ran := Outcome Scope (Int64 × Int64) Fault

def attempt {Item : Type} (computed : Except Fault Item) (rest : Item → Ran) : Ran :=
  match computed with
  | .ok item => rest item
  | .error fault => .failed fault

def perform : Statement → Scope → Ran
  | .plain (.bind name value), scope =>
      attempt (eval value scope) fun (value, scope) =>
        attempt value.copied fun value => .next ((name, ⟨false, value⟩) :: scope)
  | .plain (.discard value), scope => attempt (eval value scope) fun (_, scope) => .next scope
  | .plain (.assign name value), scope =>
      attempt (valueOf scope name) fun before =>
        attempt (eval value scope) fun (value, scope) =>
          attempt (before.assigned value) fun value => attempt (change scope name value) .next
  | .plain (.increment name), scope =>
      attempt (valueOf scope name) fun before =>
        attempt before.incremented fun value => attempt (change scope name value) .next
  | .plain (.push list value), scope =>
      attempt (eval value scope) fun (value, scope) =>
        attempt value.signed fun value =>
          attempt ((valueOf scope list).bind Value.elements) fun elements =>
            attempt (change scope list (.list (elements ++ [value]))) .next
  | .plain (.swap list first second), scope =>
      attempt (eval first scope) fun (first, scope) =>
        attempt first.unsigned fun first =>
          attempt (eval second scope) fun (second, scope) =>
            attempt second.unsigned fun second =>
              attempt ((valueOf scope list).bind Value.elements) fun elements =>
                attempt (exchanged elements first second) fun elements =>
                  attempt (change scope list (.list elements)) .next
  | .plain (.answer status value), scope =>
      attempt (eval value scope) fun (value, _) =>
        attempt value.signed fun value => .returned (wrap status.code, value)
  | .initial (.emptyVec name), scope => .next ((name, ⟨true, .list []⟩) :: scope)
  | .initial (.usize name value), scope =>
      attempt (Value.literal value).unsigned fun value =>
        .next ((name, ⟨true, .usize value⟩) :: scope)
  | .initial (.i64 name value), scope =>
      attempt (Value.literal value).signed fun value =>
        .next ((name, ⟨true, .i64 value⟩) :: scope)

def meaning : Meaning Statement Expr Head Scope (Int64 × Int64) Fault where
  stmt := perform
  test test scope := do
    let (value, scope) ← eval test scope
    .ok (← value.condition, scope)
  define _ _ _ := .failed .unreadable
  leave := Source.Scope.leave

/-- Runs a text that is one function, and calls that function by its name on a slice. -/
def call (fuel : Nat) (text name : Text) (inputs : List Int64) : Ran :=
  match read text with
  | some (.define head body .done) =>
      if head.name = name then
        body.exec meaning fuel [(head.parameter, ⟨false, .list inputs⟩)]
      else .failed .unbound
  | _ => .failed .unreadable

end StackMachine.Rust

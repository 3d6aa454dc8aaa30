import StackMachine.Word

/-!
Random computations. A draw asks for a word between two bounds and goes on with the answer; who
answers is left open, so a law can be stated for every stream of answers.
-/

namespace StackMachine.Random

set_option autoImplicit false

inductive Draw (α : Type) where
  | done (value : α)
  | ask (low high : Word) (next : Word → Draw α)

namespace Draw

variable {α β : Type}

def bind (draw : Draw α) (proceed : α → Draw β) : Draw β :=
  match draw with
  | done value => proceed value
  | ask low high next => .ask low high fun answer => (next answer).bind proceed

instance : Monad Draw where
  pure := done
  bind := bind

/-- A word with `low ≤ word ≤ high`. -/
def word (low high : Word) : Draw Word := .ask low high .done

/-- A position in a list of the given length. -/
def position (length : Nat) : Draw Nat :=
  .ask 0 (Int64.ofNat (length - 1)) fun answer => .done answer.toInt.toNat

/-- An item of a list. The fallback stands for an answer outside the list. -/
def choose (items : List α) (fallback : α) : Draw α := do
  let index ← position items.length
  return items.getD index fallback

/-- As many words between the bounds, before which come those already drawn, latest first. -/
def wordsAfter (low high : Word) (drawn : List Word) : Nat → Draw (List Word)
  | 0 => .done drawn.reverse
  | count + 1 => .ask low high fun answer => wordsAfter low high (answer :: drawn) count

def words (low high : Word) (count : Nat) : Draw (List Word) := wordsAfter low high [] count

/-- Several draws in order. -/
def sequence : List (Draw α) → Draw (List α)
  | [] => .done []
  | draw :: rest => do
      let value ← draw
      let values ← sequence rest
      return value :: values

/-- The outcomes that answers within the bounds can lead to. -/
inductive Yields : Draw α → α → Prop where
  | done (value : α) : Yields (.done value) value
  | ask (low high answer : Word) (next : Word → Draw α) (value : α) :
      low ≤ answer → answer ≤ high → Yields (next answer) value →
        Yields (.ask low high next) value

end Draw

end StackMachine.Random

import StackMachine.Random.Draw
import StackMachine.Random.Uniform

/-!
The 64-bit Mersenne twister, and the answers that it gives to draws.
-/

namespace StackMachine.Random

set_option autoImplicit false

/-- The state words and the position of the next one; at the end the whole state is renewed. -/
structure Twister where
  state : Array UInt64
  position : Nat

namespace Twister

def size : Nat := 312

/-- The distance between the words that a renewal combines. -/
def middle : Nat := 156

def word (state : Array UInt64) (index : Nat) : UInt64 := state.getD index 0

/-- The state word that follows `previous` at `index` when seeding. -/
def seedWord (previous : UInt64) (index : Nat) : UInt64 :=
  (6364136223846793005 : UInt64) * (previous ^^^ (previous >>> 62)) + UInt64.ofNat index

def ofSeed (seed : UInt64) : Twister :=
  let extend (state : Array UInt64) (index : Nat) : Array UInt64 :=
    state.push (seedWord (word state index) (index + 1))
  ⟨(List.range (size - 1)).foldl extend #[seed], size⟩

/-- Joins the high bits of one word with the low bits of the next and multiplies by the twist. -/
def twist (upper lower : UInt64) : UInt64 :=
  let joined := (upper &&& 0xFFFFFFFF80000000) ||| (lower &&& 0x7FFFFFFF)
  (joined >>> 1) ^^^ (if joined &&& 1 = 1 then 0xB5026F5AA96619E9 else 0)

def renew (state : Array UInt64) : Array UInt64 :=
  let update (state : Array UInt64) (index : Nat) : Array UInt64 :=
    state.setIfInBounds index
      (word state ((index + middle) % size) ^^^
        twist (word state index) (word state ((index + 1) % size)))
  (List.range size).foldl update state

def temper (word : UInt64) : UInt64 :=
  let word := word ^^^ ((word >>> 29) &&& 0x5555555555555555)
  let word := word ^^^ ((word <<< 17) &&& 0x71D67FFFEDA60000)
  let word := word ^^^ ((word <<< 37) &&& 0xFFF7EEE000000000)
  word ^^^ (word >>> 43)

/-- The next raw draw. -/
def next (twister : Twister) : UInt64 × Twister :=
  let twister := if twister.position < size then twister else ⟨renew twister.state, 0⟩
  (temper (word twister.state twister.position), { twister with position := twister.position + 1 })

/-- A bound on refused draws in a row. Each draw is refused with a chance below one half. -/
def patience : Nat := 4096

/-- Draws until a word is selected, at most `attempts` times. -/
def answer (low high : Word) : Nat → Twister → Word × Twister
  | 0, twister => (low, twister)
  | attempts + 1, twister =>
      let (raw, twister) := twister.next
      match Uniform.select? low high raw with
      | some word => (word, twister)
      | none => answer low high attempts twister

/-- Answers every question of a random computation. -/
def run {α : Type} : Draw α → Twister → α × Twister
  | .done value, twister => (value, twister)
  | .ask low high next, twister =>
      let (word, twister) := answer low high patience twister
      run (next word) twister

end Twister

end StackMachine.Random

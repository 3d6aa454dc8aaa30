import StackMachine.Word

/-!
Uniform words from raw 64-bit draws. With `count` values in the interval, the high half of
`raw * count` selects one of them; the draws whose low half is under the remainder of `2^64` by
`count` are refused, which leaves each value equally many draws.
-/

namespace StackMachine.Random.Uniform

set_option autoImplicit false

/-- The distance from `low` to `high`, modulo `2^64`. -/
def distance (low high : Word) : UInt64 := high.toUInt64 - low.toUInt64

/-- The number of refused low halves, which is the remainder of `2^64` by `count`. -/
def threshold (count : Nat) : Nat := (UInt64.size - count) % count

/-- The word that a raw draw selects in `[low, high]`, or `none` when the draw is refused. The full
range of words has one raw draw for each word. -/
def select? (low high : Word) (raw : UInt64) : Option Word :=
  if distance low high = 0xFFFFFFFFFFFFFFFF then some (raw + low.toUInt64).toInt64
  else
    let count := (distance low high).toNat + 1
    let product := raw.toNat * count
    let lowHalf := product % UInt64.size
    if lowHalf < count ∧ lowHalf < threshold count then none
    else some (UInt64.ofNat (product / UInt64.size) + low.toUInt64).toInt64

end StackMachine.Random.Uniform

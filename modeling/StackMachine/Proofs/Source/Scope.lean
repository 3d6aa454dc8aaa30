import StackMachine.Text

/-!
# Variables of nested blocks

A scope lists the variables that are in reach, latest first. A block puts its own in front and takes
them away again when it is left, so code that runs in front of a known scope can be followed without
asking what the blocks inside it declared.
-/

namespace StackMachine.Source

set_option autoImplicit false

abbrev Scope (Name Value : Type) := List (Name × Value)

namespace Scope

variable {Name Value : Type} [DecidableEq Name]

def find (scope : Scope Name Value) (name : Name) : Option Value := scope.lookup name

/-- Changes the latest variable of that name. -/
def set : Scope Name Value → Name → Value → Scope Name Value
  | [], _, _ => []
  | (other, old) :: rest, name, value =>
      if other = name then (name, value) :: rest else (other, old) :: set rest name value

/-- What is left of an inner scope when the code goes on in the outer one. -/
def leave (outer inner : Scope Name Value) : Scope Name Value :=
  inner.drop (inner.length - outer.length)

def Misses (scope : Scope Name Value) (name : Name) : Prop := ∀ entry ∈ scope, entry.1 ≠ name

theorem find_past (front scope : Scope Name Value) (name : Name) (misses : Misses front name) :
    find (front ++ scope) name = find scope name := by
  induction front with
  | nil => rfl
  | cons entry front ih =>
      have other : name ≠ entry.1 := (misses entry (by simp)).symm
      have rest := ih fun later member => misses later (List.mem_cons_of_mem _ member)
      rw [find] at rest ⊢
      rw [List.cons_append, List.lookup_cons, beq_false_of_ne other, rest]

theorem set_past (front scope : Scope Name Value) (name : Name) (value : Value)
    (misses : Misses front name) :
    set (front ++ scope) name value = front ++ set scope name value := by
  induction front with
  | nil => rfl
  | cons entry front ih =>
      have other : entry.1 ≠ name := misses entry (by simp)
      rw [List.cons_append, set, if_neg other,
        ih fun later member => misses later (List.mem_cons_of_mem _ member)]
      rfl

omit [DecidableEq Name] in
theorem leave_front (outer front scope : Scope Name Value)
    (same : scope.length = outer.length) : leave outer (front ++ scope) = scope := by
  have count : (front ++ scope).length - outer.length = front.length := by
    rw [List.length_append, same, Nat.add_sub_cancel]
  rw [leave, count, List.drop_left]

omit [DecidableEq Name] in
theorem leave_self (scope : Scope Name Value) : leave scope scope = scope :=
  leave_front scope [] scope rfl

omit [DecidableEq Name] in
theorem leave_leave (outer inner : Scope Name Value) :
    leave outer (leave outer inner) = leave outer inner := by
  have short : (leave outer inner).length - outer.length = 0 := by
    rw [leave, List.length_drop]
    omega
  rw [leave, short, List.drop_zero]

end Scope

end StackMachine.Source

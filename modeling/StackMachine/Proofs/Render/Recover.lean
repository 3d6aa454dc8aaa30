import StackMachine.Proofs.Render.Canonical
import StackMachine.Proofs.Source.Run

/-!
# Recovering the arms from code

A chain of arms falls apart in one way only, because the code for the other positions is no arm
itself. So whoever recovers one action from the code of its arm recovers the arms of a whole walk,
up to the index that every text leaves out.
-/

namespace StackMachine.Source

open StackMachine.Render

set_option autoImplicit false

section

variable {S T D : Type} {test : Nat → T} {arm : Program → Nat → Instr → Code S T D}
  {other : Code S T D}

/-- What follows an arm in a chain is no more than an arm and the rest of the chain. -/
def EndsChain (other : Code S T D) : Prop :=
  ∀ test body next, other ≠ .branch test body next .done

/-- From the code of an arm its action is recovered. -/
def Recovers (action? : Code S T D → Option Action) (arm : Program → Nat → Instr → Code S T D) :
    Prop :=
  ∀ program pc instr,
    action? (arm program pc instr) = some (Action.ofInstr program pc instr).canonical

theorem canonical_of_chain {action? : Code S T D → Option Action} (recovers : Recovers action? arm)
    (ends : EndsChain other) (s t : Program) (pc : Nat) (first second : List Instr)
    (same : armChain test (arm s) other pc first = armChain test (arm t) other pc second) :
    (Dispatch.armsFrom s pc first).map (fun (number, action) => (number, action.canonical)) =
      (Dispatch.armsFrom t pc second).map fun (number, action) => (number, action.canonical) := by
  induction first generalizing pc second with
  | nil =>
      cases second with
      | nil => rfl
      | cons instr second => exact absurd same (ends _ _ _)
  | cons instr first ih =>
      cases second with
      | nil => exact absurd same.symm (ends _ _ _)
      | cons another second =>
          simp only [armChain, Code.branch.injEq, true_and, and_true] at same
          obtain ⟨here, later⟩ := same
          have action : (Action.ofInstr s pc instr).canonical =
              (Action.ofInstr t pc another).canonical := by
            apply Option.some.inj
            rw [← recovers, ← recovers, here]
          simp only [Dispatch.armsFrom, List.map_cons, action, ih (pc + 1) second later]

theorem alike_of_chain {action? : Code S T D → Option Action} (recovers : Recovers action? arm)
    (ends : EndsChain other) {s t : Program} (budget : s.maxSteps = t.maxSteps)
    (same : armChain test (arm s) other 0 s.code = armChain test (arm t) other 0 t.code) :
    Alike s t := by
  have arms := canonical_of_chain recovers ends s t 0 s.code t.code same
  simp only [Alike, Dispatch.canonical, Dispatch.ofProgram, budget, arms]

end

end StackMachine.Source

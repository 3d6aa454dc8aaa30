import StackMachine.Proofs.Render.Dispatch
import StackMachine.Proofs.Source.Rows

/-!
# What a text keeps of a walk

A negative direct index is out of range whatever the inputs are, so every target writes the same
fault for all of them. With one index in place of them all, the arms of a walk are canonical: they
decide the text in each language, and they decide every run.
-/

namespace StackMachine.Render

set_option autoImplicit false

/-- The same action, but for which of the negative direct indexes it loads. -/
def Action.canonical : Action → Action
  | .loadInput index .direct next =>
      if index < 0 then .loadInput (-1) .direct 0 else .loadInput index .direct next
  | action => action

theorem Action.canonical_opcode (action : Action) : action.canonical.opcode = action.opcode := by
  unfold canonical
  split
  · split <;> rfl
  · rfl

theorem Action.canonical_effect (action : Action) (inputs stack : List Word) :
    action.canonical.effect? inputs stack = action.effect? inputs stack := by
  unfold canonical
  split
  · next index next =>
      split
      · next negative =>
          have least : InputMode.direct.fetch? inputs (-1) = none :=
            InputMode.fetch_direct_negative (by decide)
          simp only [effect?, least, InputMode.fetch_direct_negative negative]
      · rfl
  · rfl

theorem Language.action_canonical (language : Language) (action : Action) :
    language.target.action action.canonical = language.target.action action := by
  unfold Action.canonical
  split
  · next index next =>
      split
      · next negative =>
          have least : (-1 : Word) < 0 := by decide
          cases language <;>
            simp [Language.target, Python.target, Python.body, Python.loadInput, Java.target,
              Java.body, Java.loadInput, Rust.target, Rust.body, Rust.loadInput, negative, least]
      · rfl
  · rfl

namespace Dispatch

def canonical (dispatch : Dispatch) : Dispatch where
  maxSteps := dispatch.maxSteps
  arms := dispatch.arms.map fun (number, action) => (number, action.canonical)
  other := dispatch.other.canonical

theorem lookup_canonical (arms : List (Int × Action)) (number : Int) :
    (arms.map fun (number, action) => (number, action.canonical)).lookup number =
      (arms.lookup number).map Action.canonical := by
  induction arms with
  | nil => rfl
  | cons arm arms ih =>
      obtain ⟨own, action⟩ := arm
      simp only [List.map_cons, List.lookup_cons, ih]
      cases number == own <;> rfl

theorem canonical_turn (dispatch : Dispatch) (inputs : List Word) (state : State) :
    dispatch.canonical.turn? inputs state = dispatch.turn? inputs state := by
  simp only [turn?, canonical, lookup_canonical]
  cases dispatch.arms.lookup state.pc with
  | none => simp only [Option.map_none, Action.canonical_effect]
  | some action => simp only [Option.map_some, Action.canonical_opcode, Action.canonical_effect]

theorem canonical_loop (dispatch : Dispatch) (inputs : List Word) (turns : Nat) (state : State) :
    dispatch.canonical.loop? inputs turns state = dispatch.loop? inputs turns state := by
  have budget : dispatch.canonical.budget = dispatch.budget := rfl
  induction turns generalizing state with
  | zero => rfl
  | succ turns ih => simp only [loop?, budget, canonical_turn, ih]

theorem canonical_run (dispatch : Dispatch) (inputs : List Word) :
    dispatch.canonical.run? inputs = dispatch.run? inputs :=
  canonical_loop dispatch inputs _ _

end Dispatch

/-- Programs whose walks have the same canonical arms and the same budget. -/
def Alike (s t : Program) : Prop :=
  (Dispatch.ofProgram s).canonical = (Dispatch.ofProgram t).canonical

instance (s t : Program) : Decidable (Alike s t) := inferInstanceAs (Decidable (_ = _))

theorem Dispatch.Ended.of_run_inj {first second : Run}
    (same : Ended.ofRun first = .ofRun second) : first = second := by
  cases first
  cases second
  simpa only [ofRun, Ended.mk.injEq, Int.natCast_inj, Run.mk.injEq] using same

theorem run_of_alike {s t : Program} (alike : Alike s t) (inputs : List Word) :
    s.run inputs = t.run inputs := by
  have same : (Dispatch.ofProgram s).run? inputs = (Dispatch.ofProgram t).run? inputs := by
    rw [← Dispatch.canonical_run, alike, Dispatch.canonical_run]
  rw [Dispatch.run_follows, Dispatch.run_follows] at same
  exact Dispatch.Ended.of_run_inj (Option.some.inj same)

namespace Target

variable (target : Target)

def dispatchEdits (arms : List (Int × Action)) : List Edit :=
  arms.flatMap fun (number, action) =>
    target.arm number (number == 0) ++ (target.action action).1 ++ target.endArm

theorem arm_edits_dispatch (program : Program) (pc : Nat) (code : List Instr) :
    target.armEdits program pc code = target.dispatchEdits (Dispatch.armsFrom program pc code) := by
  induction code generalizing pc with
  | nil => rfl
  | cons instr code ih =>
      have first : ((pc : Int) == 0) = (pc == 0) := by
        rw [Bool.eq_iff_iff]
        simp
      rw [armEdits, ih, ← first]
      rfl

end Target

theorem Language.dispatch_canonical (language : Language) (arms : List (Int × Action)) :
    language.target.dispatchEdits (arms.map fun (number, action) => (number, action.canonical)) =
      language.target.dispatchEdits arms := by
  simp only [Target.dispatchEdits, List.flatMap_map, action_canonical]

theorem Language.opening_budget (language : Language) (name : Text) {s t : Program}
    (same : s.maxSteps = t.maxSteps) :
    language.target.opening name s = language.target.opening name t := by
  cases language with
  | python => simp only [target, Python.target, Python.opening, Python.loopTest, same]
  | java => simp only [target, Java.target, Java.opening, Java.loopTest, same]
  | rust => simp only [target, Rust.target, Rust.opening, Rust.loopTest, same]

theorem render_of_alike {s t : Program} (alike : Alike s t) (language : Language) (name : Text) :
    language.render name s = language.render name t := by
  have budget : s.maxSteps = t.maxSteps := congrArg Dispatch.maxSteps alike
  have arms : language.target.dispatchEdits (Dispatch.armsFrom s 0 s.code) =
      language.target.dispatchEdits (Dispatch.armsFrom t 0 t.code) := by
    rw [← Language.dispatch_canonical,
      ← Language.dispatch_canonical language (Dispatch.armsFrom t 0 t.code)]
    exact congrArg (fun dispatch => language.target.dispatchEdits dispatch.arms) alike
  rw [Language.render_source, Language.render_source, Target.source, Target.source,
    Target.arm_edits_dispatch, Target.arm_edits_dispatch, language.opening_budget name budget, arms]

end StackMachine.Render

import StackMachine.Proofs.Machine.Ending
import StackMachine.Proofs.Source.Block

/-!
# Running structured code

The part of a target language's meaning that its block structure fixes: order, conditionals, loops
and blocks. What a statement or a test does is a parameter. Fuel bounds the turns of every loop, and
a run that ends gives the same outcome for any larger fuel.

A loop over a chain of numbered arms answers what the machine answers, as soon as a state relation
survives each arm; this is the one induction over steps that all target languages share. If the run
reaches a configuration at which a turn fails, and the turns before it agree, the loop fails.
-/

namespace StackMachine.Source

set_option autoImplicit false

/-- How a piece of code ends. -/
inductive Outcome (State Answer Fault : Type) where
  | next (state : State)
  | returned (answer : Answer)
  | failed (fault : Fault)
  /-- The fuel did not last. -/
  | unfinished

section

variable {State Next Answer Fault : Type}

namespace Outcome

def andThen (outcome : Outcome State Answer Fault) (rest : State → Outcome Next Answer Fault) :
    Outcome Next Answer Fault :=
  match outcome with
  | .next state => rest state
  | .returned answer => .returned answer
  | .failed fault => .failed fault
  | .unfinished => .unfinished

/-- Leaves a block: what the block returns passes through, and its state is cut back. -/
def leaving (leave : State → State) (outcome : Outcome State Answer Fault) :
    Outcome State Answer Fault :=
  outcome.andThen fun state => .next (leave state)

@[simp]
theorem and_then_next (state : State) (rest : State → Outcome Next Answer Fault) :
    (Outcome.next state).andThen rest = rest state := rfl

@[simp]
theorem and_then_returned (answer : Answer) (rest : State → Outcome Next Answer Fault) :
    (Outcome.returned answer).andThen rest = .returned answer := rfl

@[simp]
theorem and_then_failed (fault : Fault) (rest : State → Outcome Next Answer Fault) :
    (Outcome.failed fault).andThen rest = .failed fault := rfl

@[simp]
theorem leaving_next (leave : State → State) (state : State) :
    (Outcome.next state : Outcome State Answer Fault).leaving leave = .next (leave state) := rfl

@[simp]
theorem leaving_returned (leave : State → State) (answer : Answer) :
    (Outcome.returned answer : Outcome State Answer Fault).leaving leave = .returned answer := rfl

@[simp]
theorem leaving_failed (leave : State → State) (fault : Fault) :
    (Outcome.failed fault : Outcome State Answer Fault).leaving leave = .failed fault := rfl

@[simp]
theorem and_then_next_self (outcome : Outcome State Answer Fault) :
    outcome.andThen .next = outcome := by
  cases outcome <;> rfl

theorem leaving_leaving (first second both : State → State)
    (outcome : Outcome State Answer Fault) (same : ∀ state, second (first state) = both state) :
    (outcome.leaving first).leaving second = outcome.leaving both := by
  cases outcome with
  | next state => simp [same]
  | returned _ => rfl
  | failed _ => rfl
  | unfinished => rfl

end Outcome

/-- The outcome that a run has for all sufficient fuel. -/
def Ends (run : Nat → Outcome State Answer Fault) (outcome : Outcome State Answer Fault) : Prop :=
  ∃ bound, ∀ fuel, bound ≤ fuel → run fuel = outcome

def repeatWhile (test : State → Except Fault (Bool × State))
    (body : State → Outcome State Answer Fault) : Nat → State → Outcome State Answer Fault
  | 0, _ => .unfinished
  | fuel + 1, state =>
      match test state with
      | .error fault => .failed fault
      | .ok (false, state) => .next state
      | .ok (true, state) => (body state).andThen (repeatWhile test body fuel)

variable {S T D : Type}

/-- What a language adds to its block structure. -/
structure Meaning (S T D State Answer Fault : Type) where
  stmt : S → State → Outcome State Answer Fault
  test : T → State → Except Fault (Bool × State)
  define : D → Code S T D → State → Outcome State Answer Fault
  /-- What is left of an inner state when its block is left again, given the state before. -/
  leave : State → State → State

namespace Code

variable (meaning : Meaning S T D State Answer Fault)

def exec (fuel : Nat) : Code S T D → State → Outcome State Answer Fault
  | .done, state => .next state
  | .simple stmt rest, state => (meaning.stmt stmt state).andThen (rest.exec fuel)
  | .branch test body other rest, state =>
      match meaning.test test state with
      | .error fault => .failed fault
      | .ok (true, inner) =>
          ((body.exec fuel inner).leaving (meaning.leave inner)).andThen (rest.exec fuel)
      | .ok (false, inner) =>
          ((other.exec fuel inner).leaving (meaning.leave inner)).andThen (rest.exec fuel)
  | .loop test body rest, state =>
      (repeatWhile (meaning.test test)
        (fun inner => (body.exec fuel inner).leaving (meaning.leave inner)) fuel state).andThen
        (rest.exec fuel)
  | .define head body rest, state => (meaning.define head body state).andThen (rest.exec fuel)

variable {meaning} {fuel : Nat} {state after : State} {stmt : S} {test : T}
  {body other rest : Code S T D} {condition : Bool}

theorem exec_simple (goes : meaning.stmt stmt state = .next after) :
    (Code.simple stmt rest).exec meaning fuel state = rest.exec meaning fuel after := by
  rw [exec, goes, Outcome.and_then_next]

theorem exec_simple_returned {answer : Answer}
    (returns : meaning.stmt stmt state = .returned answer) :
    (Code.simple stmt rest).exec meaning fuel state = .returned answer := by
  rw [exec, returns, Outcome.and_then_returned]

theorem exec_simple_failed {fault : Fault} (fails : meaning.stmt stmt state = .failed fault) :
    (Code.simple stmt rest).exec meaning fuel state = .failed fault := by
  rw [exec, fails, Outcome.and_then_failed]

theorem exec_branch (tested : meaning.test test state = .ok (condition, after)) :
    (Code.branch test body other rest).exec meaning fuel state =
      ((if condition then body.exec meaning fuel after
        else other.exec meaning fuel after).leaving (meaning.leave after)).andThen
        (rest.exec meaning fuel) := by
  rw [exec, tested]
  cases condition <;> rfl

theorem exec_last_branch (tested : meaning.test test state = .ok (condition, after)) :
    (Code.branch test body other .done).exec meaning fuel state =
      (if condition then body.exec meaning fuel after
        else other.exec meaning fuel after).leaving (meaning.leave after) := by
  rw [exec_branch tested]
  exact Outcome.and_then_next_self _

/-- A conditional that only ever returns stands in front of the code after it as a guard. -/
theorem exec_guard {answer : Answer} (tested : meaning.test test state = .ok (condition, state))
    (same : meaning.leave state state = state)
    (returns : body.exec meaning fuel state = .returned answer) :
    (Code.branch test body .done rest).exec meaning fuel state =
      if condition then .returned answer else rest.exec meaning fuel state := by
  rw [exec_branch tested]
  cases condition with
  | true => simp [returns]
  | false => simp [exec, same]

end Code

/-- One arm for each instruction from position `pc` on, and `other` for every other position. -/
def armChain (test : Nat → T) (arm : Nat → Instr → Code S T D) (other : Code S T D) :
    Nat → List Instr → Code S T D
  | _, [] => other
  | pc, instr :: rest =>
      .branch (test pc) (arm pc instr) (armChain test arm other (pc + 1) rest) .done

section

variable {meaning : Meaning S T D State Answer Fault} {test : Nat → T}
  (arm : Nat → Instr → Code S T D) (other : Code S T D) {position : Nat} {state : State}

/-- The chain reaches the arm of the position through the arms before it, and leaves as many
blocks, which is no more than leaving one. -/
theorem exec_arm (fuel bound : Nat)
    (tests : ∀ pc, pc < bound → meaning.test (test pc) state = .ok (decide (position = pc), state))
    (leaves : ∀ inner, meaning.leave state (meaning.leave state inner) = meaning.leave state inner)
    (code : List Instr) (instr : Instr) (start : Nat) (within : start + code.length ≤ bound)
    (below : start ≤ position) (found : code[position - start]? = some instr) :
    (armChain test arm other start code).exec meaning fuel state =
      ((arm position instr).exec meaning fuel state).leaving (meaning.leave state) := by
  induction code generalizing start with
  | nil => simp at found
  | cons first code ih =>
      rw [List.length_cons] at within
      have tested := tests start (by omega)
      by_cases here : position = start
      · subst here
        have same : first = instr := by simpa using found
        simp [armChain, Code.exec, tested, same]
      · have later : position - start = position - (start + 1) + 1 := by omega
        rw [later, List.getElem?_cons_succ] at found
        have rest := ih (start + 1) (by omega) (by omega) found
        simp only [armChain, Code.exec, tested, here, decide_false, rest,
          Outcome.and_then_next_self]
        exact Outcome.leaving_leaving _ _ _ _ leaves

theorem exec_other_arm (fuel bound : Nat)
    (tests : ∀ pc, pc < bound → meaning.test (test pc) state = .ok (decide (position = pc), state))
    (answer : Answer) (returns : other.exec meaning fuel state = .returned answer)
    (code : List Instr) (start : Nat) (within : start + code.length ≤ bound)
    (below : start ≤ position) (missing : code[position - start]? = none) :
    (armChain test arm other start code).exec meaning fuel state = .returned answer := by
  induction code generalizing start with
  | nil => exact returns
  | cons first code ih =>
      rw [List.length_cons] at within
      have tested := tests start (by omega)
      have past : position ≠ start := by
        rintro rfl
        simp at missing
      have later : position - start = position - (start + 1) + 1 := by omega
      rw [later, List.getElem?_cons_succ] at missing
      have rest := ih (start + 1) (by omega) (by omega) missing
      simp [armChain, Code.exec, tested, past, rest]

end

/-- The outcome of one turn is what one step of the machine calls for. -/
def Agrees (related : Config → State → Prop) (answer : Result → Answer) :
    Transition → Outcome State Answer Fault → Prop
  | .next config, outcome => ∃ state, outcome = .next state ∧ related config state
  | .done stop, outcome => outcome = .returned (answer stop.result)

namespace Agrees

variable {related inner : Config → State → Prop} {answer : Result → Answer}
  {transition : Transition} {outcome : Outcome State Answer Fault}

/-- A block that is left passes on what it returns, and its state as the outer code sees it. -/
theorem leaving {leave : State → State} (agrees : Agrees inner answer transition outcome)
    (left : ∀ config state, inner config state → related config (leave state)) :
    Agrees related answer transition (outcome.leaving leave) := by
  cases transition with
  | done stop => exact congrArg _ agrees
  | next following =>
      obtain ⟨after, went, relates⟩ := agrees
      rw [went]
      exact ⟨leave after, rfl, left following after relates⟩

/-- What the machine itself keeps in a step may be added to the relation. -/
theorem after_step {program : Program} {inputs : List Word} {config : Config}
    (agrees : Agrees inner answer (program.step inputs config) outcome)
    (keeps : ∀ following after, program.step inputs config = .next following →
      inner following after → related following after) :
    Agrees related answer (program.step inputs config) outcome := by
  cases stepped : program.step inputs config with
  | done stop =>
      rw [stepped] at agrees
      exact agrees
  | next following =>
      rw [stepped] at agrees
      obtain ⟨after, went, relates⟩ := agrees
      exact ⟨after, went, keeps following after stepped relates⟩

end Agrees

/-- A chain of arms does what the next step of the machine calls for, if the arm of each instruction
does what the instruction calls for once the step is counted. Past the last instruction no arm is
taken, and the last alternative halts without a step being counted. -/
theorem chain_agrees {meaning : Meaning S T D State Answer Fault} (program : Program)
    {inputs : List Word} {related : Config → State → Prop} {answer : Result → Answer}
    {test : Nat → T} {arm : Nat → Instr → Code S T D} {other : Code S T D} (fuel : Nat)
    {config : Config} {state : State}
    (tests : ∀ pc, pc < program.length →
      meaning.test (test pc) state = .ok (decide (config.pc = pc), state))
    (leaves : ∀ inner, meaning.leave state (meaning.leave state inner) = meaning.leave state inner)
    (halts : other.exec meaning fuel state = .returned (answer (.halt config.stack)))
    (arms : ∀ instr, program.code[config.pc]? = some instr →
      Agrees related answer
        (program.execute inputs instr { config with steps := config.steps + 1 })
        (((arm config.pc instr).exec meaning fuel state).leaving (meaning.leave state))) :
    Agrees related answer (program.step inputs config)
      (((armChain test arm other 0 program.code).exec meaning fuel state).leaving
        (meaning.leave state)) := by
  have within : 0 + program.code.length ≤ program.length := Nat.le_of_eq (Nat.zero_add _)
  rw [Program.step]
  cases found : program.code[config.pc]? with
  | none =>
      rw [exec_other_arm arm other fuel _ tests _ halts program.code 0 within (Nat.zero_le _) found]
      rfl
  | some instr =>
      rw [exec_arm arm other fuel _ tests leaves program.code instr 0 within (Nat.zero_le _) found,
        Outcome.leaving_leaving _ _ (meaning.leave state) _ leaves]
      exact arms instr found

/-- A loop whose turns agree with the steps of the machine answers what the machine answers. The
induction is on the steps that the budget still allows, which also bounds the fuel. -/
theorem loop_answers {meaning : Meaning S T D State Answer Fault} (program : Program)
    {inputs : List Word} (related : Config → State → Prop) {answer : Result → Answer}
    {test : T} {body rest : Code S T D} (fuel : Nat)
    (tested : ∀ config state, related config state →
      meaning.test test state = .ok (decide (config.steps < program.budget), state))
    (turned : ∀ config state, related config state → config.steps < program.budget →
      Agrees related answer (program.step inputs config)
        ((body.exec meaning fuel state).leaving (meaning.leave state)))
    (after : ∀ state, rest.exec meaning fuel state = .returned (answer (.fault .stepLimit)))
    (remaining turns : Nat) (config : Config) (state : State) (relates : related config state)
    (counted : config.steps + remaining = program.budget) (enough : remaining < turns) :
    (repeatWhile (meaning.test test)
        (fun inner => (body.exec meaning fuel inner).leaving (meaning.leave inner))
        turns state).andThen (rest.exec meaning fuel) =
      .returned (answer (program.stopFrom inputs remaining config).result) := by
  induction remaining generalizing turns config state with
  | zero =>
      obtain ⟨turns, rfl⟩ : ∃ before, turns = before + 1 := ⟨turns - 1, by omega⟩
      have spent : ¬config.steps < program.budget := by omega
      simp only [repeatWhile, tested config state relates, spent, decide_false,
        Outcome.and_then_next, after, Program.stopFrom]
  | succ remaining ih =>
      obtain ⟨turns, rfl⟩ : ∃ before, turns = before + 1 := ⟨turns - 1, by omega⟩
      have left : config.steps < program.budget := by omega
      have turn := turned config state relates left
      simp only [repeatWhile, tested config state relates, left, decide_true]
      cases stepped : program.step inputs config with
      | next following =>
          rw [stepped] at turn
          obtain ⟨nextState, went, nextRelates⟩ := turn
          have follows := Program.step_next config following stepped
          have rest := ih turns following nextState nextRelates
            (by rw [follows.steps]; omega) (by omega)
          rw [went, Outcome.and_then_next, rest, Program.stopFrom, stepped]
      | done stop =>
          rw [stepped] at turn
          rw [show _ = Outcome.returned (answer stop.result) from turn,
            Outcome.and_then_returned, Outcome.and_then_returned, Program.stopFrom, stepped]

/-- The loop fails if a run reaches a configuration below its budget at which the turn is spoiled, and
all turns before the first such one agree with the steps of the machine. The induction is on how that
configuration is reached: from any configuration on the way the loop fails, because it fails there
or goes on to the next one. -/
theorem loop_fails {meaning : Meaning S T D State Answer Fault} (program : Program)
    {inputs : List Word} (related : Config → State → Prop) (spoiled : Config → Prop)
    {answer : Result → Answer} {test : T} {body : Code S T D} (fuel : Nat) (fault : Fault)
    (tested : ∀ config state, related config state →
      meaning.test test state = .ok (decide (config.steps < program.budget), state))
    (turned : ∀ config state, related config state → ¬spoiled config →
      Agrees related answer (program.step inputs config)
        ((body.exec meaning fuel state).leaving (meaning.leave state)))
    (failed : ∀ config state, related config state → spoiled config →
      (body.exec meaning fuel state).leaving (meaning.leave state) = .failed fault)
    (config : Config) (reached : program.Reaches inputs config)
    (left : config.steps < program.budget) (spoils : spoiled config) (turns : Nat) (state : State)
    (relates : related .start state) (enough : program.budget < turns) :
    repeatWhile (meaning.test test)
        (fun inner => (body.exec meaning fuel inner).leaving (meaning.leave inner))
        turns state = .failed fault := by
  let FailsFrom (config : Config) : Prop := ∀ turns state, related config state →
    program.budget < config.steps + turns →
      repeatWhile (meaning.test test)
        (fun inner => (body.exec meaning fuel inner).leaving (meaning.leave inner))
        turns state = .failed fault
  have here (config : Config) (left : config.steps < program.budget) (spoils : spoiled config) :
      FailsFrom config := by
    intro turns state relates enough
    obtain ⟨turns, rfl⟩ : ∃ others, turns = others + 1 := ⟨turns - 1, by omega⟩
    simp only [repeatWhile, tested config state relates, left, decide_true,
      failed config state relates spoils, Outcome.and_then_failed]
  have backwards (config : Config) (reached : program.Reaches inputs config)
      (fails : FailsFrom config) : FailsFrom .start := by
    induction reached with
    | start => exact fails
    | next before after _ allowed went ih =>
        apply ih
        by_cases spoils : spoiled before
        · exact here before allowed spoils
        · intro turns state relates enough
          obtain ⟨turns, rfl⟩ : ∃ others, turns = others + 1 := ⟨turns - 1, by omega⟩
          have follows := Program.step_next before after went
          have turn := turned before state relates spoils
          rw [went] at turn
          obtain ⟨nextState, goes, nextRelates⟩ := turn
          simp only [repeatWhile, tested before state relates, allowed, decide_true, goes,
            Outcome.and_then_next]
          exact fails turns nextState nextRelates (by rw [follows.steps]; omega)
  exact backwards config reached (here config left spoils) turns state relates
    (by simpa [Config.start] using enough)

end

end StackMachine.Source

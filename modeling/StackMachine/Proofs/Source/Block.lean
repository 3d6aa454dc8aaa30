import StackMachine.Text

/-!
# Block structure of program text

Structured code and the row of line events that spells it. A conditional owns the code that runs
when its test fails, so a chain of alternatives nests to the right. The assembler reads the events
backwards: a closing starts an empty block, each earlier event extends the block on top, and a
header takes that block as its body.
-/

namespace StackMachine.Source

set_option autoImplicit false

/-- Code with statements `S`, tests `T` and definition headers `D`; every constructor carries the
code that follows it in the same block. -/
inductive Code (S T D : Type) where
  | done
  | simple (stmt : S) (rest : Code S T D)
  | branch (test : T) (body other rest : Code S T D)
  | loop (test : T) (body rest : Code S T D)
  | define (head : D) (body rest : Code S T D)
deriving DecidableEq, Repr

/-- What one line, or one end of an indented block, does to the structure. -/
inductive Event (S T D : Type) where
  | simple (stmt : S)
  | branch (test : T)
  /-- Another test, made only when the arm before it was not taken. -/
  | orBranch (test : T)
  | otherwise
  | loop (test : T)
  | define (head : D)
  | close
deriving DecidableEq, Repr

section

variable {S T D : Type}

namespace Code

def append : Code S T D → Code S T D → Code S T D
  | .done, code => code
  | .simple stmt rest, code => .simple stmt (rest.append code)
  | .branch test body other rest, code => .branch test body other (rest.append code)
  | .loop test body rest, code => .loop test body (rest.append code)
  | .define head body rest, code => .define head body (rest.append code)

@[simp]
theorem append_done (code : Code S T D) : code.append .done = code := by
  induction code with
  | done => rfl
  | simple stmt rest ih => simp [append, ih]
  | branch test body other rest _ _ ih => simp [append, ih]
  | loop test body rest _ ih => simp [append, ih]
  | define head body rest _ ih => simp [append, ih]

/-- Code that takes the place of an untaken arm stands in a block of its own. -/
def inBlock (alternative : Bool) (events : List (Event S T D)) : List (Event S T D) :=
  if alternative then .otherwise :: events ++ [.close] else events

/-- The events that spell some code, at the start of a block or as the `alternative` to an arm. As
an alternative nothing is spelled by nothing, and a lone conditional goes on with the chain. -/
def eventsAs (alternative : Bool) : Code S T D → List (Event S T D)
  | .done => []
  | .simple stmt rest => inBlock alternative (.simple stmt :: rest.eventsAs false)
  | .loop test body rest =>
      inBlock alternative
        (.loop test :: body.eventsAs false ++ .close :: rest.eventsAs false)
  | .define head body rest =>
      inBlock alternative
        (.define head :: body.eventsAs false ++ .close :: rest.eventsAs false)
  | .branch test body other .done =>
      (if alternative then .orBranch test else .branch test) ::
        body.eventsAs false ++ .close :: other.eventsAs true
  | .branch test body other rest =>
      inBlock alternative
        (.branch test :: body.eventsAs false ++ .close ::
          (other.eventsAs true ++ rest.eventsAs false))

def events (code : Code S T D) : List (Event S T D) := code.eventsAs false

end Code

theorem events_branch (test : T) (body other rest : Code S T D) :
    (Code.branch test body other rest).events =
      .branch test :: body.events ++ .close :: (other.eventsAs true ++ rest.events) := by
  cases rest <;> simp [Code.events, Code.eventsAs, Code.inBlock]

/-- A block under assembly, and the alternative that the arm before it will own. -/
structure Frame (S T D : Type) where
  code : Code S T D
  other : Option (Code S T D)
deriving DecidableEq, Repr

/-- Extends the blocks of the events after this one, innermost first. -/
def Event.push : Event S T D → List (Frame S T D) → Option (List (Frame S T D))
  | .simple stmt, ⟨code, none⟩ :: outer => some (⟨.simple stmt code, none⟩ :: outer)
  | .close, frames => some (⟨.done, none⟩ :: frames)
  | .branch test, ⟨body, none⟩ :: ⟨code, other⟩ :: outer =>
      some (⟨.branch test body (other.getD .done) code, none⟩ :: outer)
  | .orBranch test, ⟨body, none⟩ :: ⟨code, other⟩ :: outer =>
      some (⟨code, some (.branch test body (other.getD .done) .done)⟩ :: outer)
  | .otherwise, ⟨body, none⟩ :: ⟨code, none⟩ :: outer => some (⟨code, some body⟩ :: outer)
  | .loop test, ⟨body, none⟩ :: ⟨code, none⟩ :: outer =>
      some (⟨.loop test body code, none⟩ :: outer)
  | .define head, ⟨body, none⟩ :: ⟨code, none⟩ :: outer =>
      some (⟨.define head body code, none⟩ :: outer)
  | _, _ => none

def frames : List (Event S T D) → Option (List (Frame S T D))
  | [] => some [⟨.done, none⟩]
  | event :: rest => (frames rest).bind event.push

/-- The code that the events spell, when every block is opened and closed in turn and every
alternative follows an arm. -/
def assemble (events : List (Event S T D)) : Option (Code S T D) :=
  match frames events with
  | some [⟨code, none⟩] => some code
  | _ => none

/-- What an alternative leaves for the arm before it. -/
def Code.asOther : Code S T D → Option (Code S T D)
  | .done => none
  | code => some code

theorem as_other_get (code : Code S T D) : code.asOther.getD .done = code := by
  cases code <;> rfl

/-- The events extend any block by the code, whatever follows. -/
def Spells (events : List (Event S T D)) (code : Code S T D) : Prop :=
  ∀ tail after outer, frames tail = some (⟨after, none⟩ :: outer) →
    frames (events ++ tail) = some (⟨code.append after, none⟩ :: outer)

/-- The events give the code to the arm before them. -/
def SpellsOther (events : List (Event S T D)) (code : Code S T D) : Prop :=
  ∀ tail after outer, frames tail = some (⟨after, none⟩ :: outer) →
    frames (events ++ tail) = some (⟨after, code.asOther⟩ :: outer)

theorem frames_body {events : List (Event S T D)} {body : Code S T D}
    (spells : Spells events body) (tail : List (Event S T D)) (rest : List (Frame S T D))
    (framed : frames tail = some rest) :
    frames (events ++ .close :: tail) = some (⟨body, none⟩ :: rest) := by
  have closed : frames (.close :: tail) = some (⟨.done, none⟩ :: rest) := by
    simp [frames, framed, Event.push]
  simpa using spells (.close :: tail) .done rest closed

theorem spells_other_block {events : List (Event S T D)} {code : Code S T D}
    (spells : Spells events code) (present : code.asOther = some code) :
    SpellsOther (.otherwise :: events ++ [.close]) code := by
  intro tail after outer framed
  have body := frames_body spells tail _ framed
  have shape : (Event.otherwise :: events ++ [Event.close]) ++ tail =
      .otherwise :: (events ++ .close :: tail) := by simp
  rw [shape, frames, body, present]
  rfl

theorem spells_both_of_block {events : List (Event S T D)} {code : Code S T D}
    (spells : Spells events code) (present : code.asOther = some code) :
    Spells (Code.inBlock false events) code ∧ SpellsOther (Code.inBlock true events) code :=
  ⟨spells, spells_other_block spells present⟩

theorem spells_simple {events : List (Event S T D)} {rest : Code S T D} (stmt : S)
    (spells : Spells events rest) : Spells (.simple stmt :: events) (.simple stmt rest) := by
  intro tail after outer framed
  rw [List.cons_append, frames, spells tail after outer framed]
  rfl

theorem spells_loop {bodyEvents restEvents : List (Event S T D)} {body rest : Code S T D}
    (test : T) (spellsBody : Spells bodyEvents body) (spellsRest : Spells restEvents rest) :
    Spells (.loop test :: bodyEvents ++ .close :: restEvents) (.loop test body rest) := by
  intro tail after outer framed
  have following := spellsRest tail after outer framed
  have inner := frames_body spellsBody (restEvents ++ tail) _ following
  have shape : (Event.loop test :: bodyEvents ++ .close :: restEvents) ++ tail =
      .loop test :: (bodyEvents ++ .close :: (restEvents ++ tail)) := by simp
  rw [shape, frames, inner]
  rfl

theorem spells_define {bodyEvents restEvents : List (Event S T D)} {body rest : Code S T D}
    (head : D) (spellsBody : Spells bodyEvents body) (spellsRest : Spells restEvents rest) :
    Spells (.define head :: bodyEvents ++ .close :: restEvents) (.define head body rest) := by
  intro tail after outer framed
  have following := spellsRest tail after outer framed
  have inner := frames_body spellsBody (restEvents ++ tail) _ following
  have shape : (Event.define head :: bodyEvents ++ .close :: restEvents) ++ tail =
      .define head :: (bodyEvents ++ .close :: (restEvents ++ tail)) := by simp
  rw [shape, frames, inner]
  rfl

theorem spells_branch {bodyEvents otherEvents restEvents : List (Event S T D)}
    {body other rest : Code S T D} (test : T) (spellsBody : Spells bodyEvents body)
    (spellsOther : SpellsOther otherEvents other) (spellsRest : Spells restEvents rest) :
    Spells (.branch test :: bodyEvents ++ .close :: (otherEvents ++ restEvents))
      (.branch test body other rest) := by
  intro tail after outer framed
  have following := spellsRest tail after outer framed
  have alternative := spellsOther (restEvents ++ tail) _ outer following
  have inner := frames_body spellsBody (otherEvents ++ (restEvents ++ tail)) _ alternative
  have shape : (Event.branch test :: bodyEvents ++ .close :: (otherEvents ++ restEvents)) ++ tail =
      .branch test :: (bodyEvents ++ .close :: (otherEvents ++ (restEvents ++ tail))) := by simp
  rw [shape, frames, inner]
  simp [Event.push, as_other_get, Code.append]

theorem spells_or_branch {bodyEvents otherEvents : List (Event S T D)}
    {body other : Code S T D} (test : T) (spellsBody : Spells bodyEvents body)
    (spellsOther : SpellsOther otherEvents other) :
    SpellsOther (.orBranch test :: bodyEvents ++ .close :: otherEvents)
      (.branch test body other .done) := by
  intro tail after outer framed
  have alternative := spellsOther tail after outer framed
  have inner := frames_body spellsBody (otherEvents ++ tail) _ alternative
  have shape : (Event.orBranch test :: bodyEvents ++ .close :: otherEvents) ++ tail =
      .orBranch test :: (bodyEvents ++ .close :: (otherEvents ++ tail)) := by simp
  rw [shape, frames, inner]
  simp only [Option.bind_some, Event.push, as_other_get]
  rfl

theorem spells_done : Spells ([] : List (Event S T D)) .done := fun _ _ _ framed => framed

theorem spells_other_done : SpellsOther ([] : List (Event S T D)) .done :=
  fun _ _ _ framed => framed

/-- Both spellings of code are right. The last conditional of a block is apart because only it may
be spelled as one more arm of the chain. -/
theorem spells_events_as (code : Code S T D) :
    Spells (code.eventsAs false) code ∧ SpellsOther (code.eventsAs true) code := by
  induction code with
  | done => exact ⟨spells_done, spells_other_done⟩
  | simple stmt rest ih => exact spells_both_of_block (spells_simple stmt ih.1) rfl
  | loop test body rest ihBody ih =>
      exact spells_both_of_block (spells_loop test ihBody.1 ih.1) rfl
  | define head body rest ihBody ih =>
      exact spells_both_of_block (spells_define head ihBody.1 ih.1) rfl
  | branch test body other rest ihBody ihOther ih =>
      have whole := spells_branch test ihBody.1 ihOther.2 ih.1
      cases rest with
      | done =>
          refine ⟨?_, spells_or_branch test ihBody.1 ihOther.2⟩
          simpa [Code.eventsAs] using whole
      | simple _ _ => exact spells_both_of_block whole rfl
      | branch _ _ _ _ => exact spells_both_of_block whole rfl
      | loop _ _ _ => exact spells_both_of_block whole rfl
      | define _ _ _ => exact spells_both_of_block whole rfl

theorem assemble_events (code : Code S T D) : assemble code.events = some code := by
  have spelled := (spells_events_as code).1 [] .done [] rfl
  simp only [List.append_nil, Code.append_done] at spelled
  rw [assemble, Code.events, spelled]

end

end StackMachine.Source

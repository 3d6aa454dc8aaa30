import StackMachine.Proofs.Rust.Syntax
import StackMachine.Proofs.Source.Rows

/-!
# A match as a chain of conditionals

Braces alone do not say what a line belongs to: the lines between the braces of a match are arms and
not statements. Reading the lines in order with a list of what is open turns each match over literals
into a chain of conditionals, and the value that a function ends with into its return. A match has to
have a last arm for every other value.
-/

namespace StackMachine.Rust

open StackMachine.Render StackMachine.Render.Rust StackMachine.Source

set_option autoImplicit false

abbrev Piece := Event Statement Expr Head

/-- What the line at hand stands in. -/
inductive Opened where
  | body
  /-- A function body after its value. -/
  | answered
  | block
  | arms (subject : Var) (begun : Bool)
  /-- A match after its last arm. -/
  | matched
deriving DecidableEq, Repr

def Opened.holdsCode : Opened → Bool
  | .body | .block => true
  | .answered | .arms _ _ | .matched => false

/-- Whether a block opens after the event. -/
def opens : Piece → Bool
  | .branch _ | .orBranch _ | .otherwise | .loop _ => true
  | .simple _ | .define _ | .close => false

def armTest (subject : Var) (number : Nat) : Expr := .compare .eq (.var subject) (.int number)

def armEvent (subject : Var) (begun : Bool) (number : Nat) : Piece :=
  if begun then .orBranch (armTest subject number) else .branch (armTest subject number)

/-- The events of a line, and what is open after it. -/
def place : Line → List Opened → Option (List Piece × List Opened)
  | .event (.define head), [] => some ([.define head], [.body])
  | .event (.simple stmt), here :: outer =>
      if here.holdsCode then some ([.simple stmt], here :: outer) else none
  | .event .close, .matched :: outer => some ([], outer)
  | .event .close, .answered :: outer => some ([.close], outer)
  | .event .close, here :: outer => if here.holdsCode then some ([.close], outer) else none
  | .event header, here :: outer =>
      if here.holdsCode ∧ opens header then some ([header], .block :: here :: outer) else none
  | .matchOn subject, here :: outer =>
      if here.holdsCode then some ([], .arms subject false :: here :: outer) else none
  | .arm number, .arms subject begun :: outer =>
      some ([armEvent subject begun number], .block :: .arms subject true :: outer)
  | .otherArm, .arms _ true :: outer => some ([.otherwise], .block :: .matched :: outer)
  | .last status value, .body :: outer =>
      some ([.simple (.plain (.answer status value))], .answered :: outer)
  | _, _ => none

def pieces : List Line → List Opened → Option (List Piece)
  | [], [] => some []
  | [], _ :: _ => none
  | line :: rest, opened =>
      (place line opened).bind fun (events, opened) =>
        (pieces rest opened).map fun following => events ++ following

/-- The code that a text spells. -/
def read (text : Text) : Option (Code Statement Expr Head) :=
  ((((Text.lines text).mapM row?).map List.flatten).bind fun lines => pieces lines []).bind assemble

/-- The lines are worth the events wherever statements may stand. -/
def Places (lines : List Line) (events : List Piece) : Prop :=
  ∀ here outer rest following, Opened.holdsCode here = true →
    pieces rest (here :: outer) = some following →
    pieces (lines ++ rest) (here :: outer) = some (events ++ following)

/-- The lines are worth the events between the braces of a match on `pc`. -/
def PlacesArms (begun : Bool) (lines : List Line) (events : List Piece) : Prop :=
  ∀ outer rest following, pieces rest (.matched :: outer) = some following →
    pieces (lines ++ rest) (.arms .pc begun :: outer) = some (events ++ following)

theorem pieces_line {line : Line} {events following : List Piece} {opened after : List Opened}
    {rest : List Line} (placed : place line opened = some (events, after))
    (placedRest : pieces rest after = some following) :
    pieces (line :: rest) opened = some (events ++ following) := by
  simp only [pieces, placed, Option.bind_some, placedRest, Option.map_some]

theorem places_nil : Places [] [] := fun _ _ _ _ _ placed => placed

theorem places_simple (stmt : Statement) : Places [.event (.simple stmt)] [.simple stmt] := by
  intro here outer rest following holds placed
  refine pieces_line ?_ placed
  rw [place, if_pos holds]

theorem places_append {first second : List Line} {left right : List Piece}
    (placesFirst : Places first left) (placesSecond : Places second right) :
    Places (first ++ second) (left ++ right) := by
  intro here outer rest following holds placed
  rw [List.append_assoc, List.append_assoc]
  exact placesFirst here outer _ _ holds (placesSecond here outer rest following holds placed)

theorem pieces_inside {lines : List Line} {events : List Piece} (places : Places lines events)
    {rest : List Line} {outer : List Opened} {following : List Piece}
    (placed : pieces rest outer = some following) :
    pieces (lines ++ .event .close :: rest) (.block :: outer) =
      some (events ++ .close :: following) := by
  have closed : pieces (.event .close :: rest) (.block :: outer) =
      some ([.close] ++ following) := pieces_line rfl placed
  exact places .block outer _ _ rfl closed

theorem places_block {lines : List Line} {events : List Piece} (header : Piece)
    (opening : opens header = true) (places : Places lines events) :
    Places (.event header :: (lines ++ [.event .close])) (header :: (events ++ [.close])) := by
  intro here outer rest following holds placed
  have inside := pieces_inside places placed
  have entered : place (.event header) (here :: outer) =
      some ([header], .block :: here :: outer) := by
    cases header with
    | simple _ | define _ | close => simp [opens] at opening
    | branch _ | orBranch _ | otherwise | loop _ => simp [place, holds, opens]
  simpa using pieces_line entered inside

theorem places_match {lines : List Line} {events : List Piece}
    (places : PlacesArms false lines events) :
    Places (.matchOn .pc :: (lines ++ [.event .close])) events := by
  intro here outer rest following holds placed
  have closed : pieces (.event .close :: rest) (.matched :: here :: outer) =
      some ([] ++ following) := pieces_line rfl placed
  have ended := places (here :: outer) _ _ closed
  have entered : place (.matchOn .pc) (here :: outer) =
      some ([], .arms .pc false :: here :: outer) := by
    rw [place, if_pos holds]
  simpa using pieces_line entered ended

theorem places_arm {lines others : List Line} {events otherEvents : List Piece} (begun : Bool)
    (number : Nat) (places : Places lines events)
    (placesOthers : PlacesArms true others otherEvents) :
    PlacesArms begun (.arm number :: (lines ++ .event .close :: others))
      (armEvent .pc begun number :: (events ++ .close :: otherEvents)) := by
  intro outer rest following placed
  have inside := pieces_inside places (placesOthers outer rest following placed)
  have entered : place (.arm number) (.arms .pc begun :: outer) =
      some ([armEvent .pc begun number], .block :: .arms .pc true :: outer) := rfl
  simpa using pieces_line entered inside

theorem places_other_arm {lines : List Line} {events : List Piece} (places : Places lines events) :
    PlacesArms true (.otherArm :: (lines ++ [.event .close]))
      (.otherwise :: (events ++ [.close])) := by
  intro outer rest following placed
  have entered : place .otherArm (.arms .pc true :: outer) =
      some ([.otherwise], .block :: .matched :: outer) := rfl
  simpa using pieces_line entered (pieces_inside places placed)

/-- Edits whose rows, wherever they stand, are worth the given events. -/
def Denotes (edits : List Edit) (events : List Piece) : Prop :=
  ∃ lines, Yields row? edits lines ∧ Places lines events

def DenotesArms (begun : Bool) (edits : List Edit) (events : List Piece) : Prop :=
  ∃ lines, Yields row? edits lines ∧ PlacesArms begun lines events

theorem row_indented (width : Nat) (text : Text) :
    row? (List.replicate width 32 ++ text) = row? text := by
  rw [row?, row?, ← lexicon.tokens_indented width text]
  rfl

theorem row_no_newline (text : Text) (lines : List Line) (found : row? text = some lines) :
    Text.newline ∉ text := by
  obtain ⟨tokens, cut, -⟩ := Option.bind_eq_some_iff.mp found
  exact lexicon.tokens_no_newline text tokens cut

theorem yields_row {text : Text} {lines : List Line} (reads : row? text = some lines) :
    Yields row? [.line text] lines := yields_line row_indented reads

theorem close_row : row? "\x7d" = some [.event .close] := by decide +kernel

theorem yields_block {text : Text} {header lines : List Line} {body : List Edit}
    (reads : row? text = some header) (yields : Yields row? body lines) :
    Yields row? (.line text :: (Edit.nested body ++ [closeLine]))
      (header ++ (lines ++ [.event .close])) :=
  yields_append (yields_row reads) (yields_append (yields_nested yields) (yields_row close_row))

theorem denotes_nil : Denotes [] [] := ⟨[], yields_nil, places_nil⟩

theorem denotes_simple {text : Text} {stmt : Statement}
    (reads : row? text = some [.event (.simple stmt)]) : Denotes [.line text] [.simple stmt] :=
  ⟨_, yields_row reads, places_simple stmt⟩

theorem denotes_append {first second : List Edit} {left right : List Piece}
    (denotesFirst : Denotes first left) (denotesSecond : Denotes second right) :
    Denotes (first ++ second) (left ++ right) := by
  obtain ⟨_, yieldsFirst, placesFirst⟩ := denotesFirst
  obtain ⟨_, yieldsSecond, placesSecond⟩ := denotesSecond
  exact ⟨_, yields_append yieldsFirst yieldsSecond, places_append placesFirst placesSecond⟩

theorem denotes_block {text : Text} {header : Piece} {body : List Edit} {events : List Piece}
    (reads : row? text = some [.event header]) (opening : opens header = true)
    (denotes : Denotes body events) :
    Denotes (.line text :: (Edit.nested body ++ [closeLine])) (header :: (events ++ [.close])) := by
  obtain ⟨_, yields, places⟩ := denotes
  exact ⟨_, yields_block reads yields, places_block header opening places⟩

/-- Two blocks, where the line that ends the first one also begins the second. -/
theorem denotes_two_blocks {text between : Text} {first second : Piece} {body other : List Edit}
    {events otherEvents : List Piece} (reads : row? text = some [.event first])
    (readsBetween : row? between = some [.event .close, .event second])
    (opening : opens first = true) (openingOther : opens second = true)
    (denotes : Denotes body events) (denotesOther : Denotes other otherEvents) :
    Denotes (.line text :: (Edit.nested body ++ .line between ::
        (Edit.nested other ++ [closeLine])))
      (first :: (events ++ .close :: second :: (otherEvents ++ [.close]))) := by
  obtain ⟨_, yields, places⟩ := denotes
  obtain ⟨_, yieldsOther, placesOther⟩ := denotesOther
  refine ⟨_, yields_append (yields_row reads) (yields_append (yields_nested yields)
    (yields_block readsBetween yieldsOther)), ?_⟩
  simpa using places_append (places_block first opening places)
    (places_block second openingOther placesOther)

theorem denotes_match {text : Text} {edits : List Edit} {events : List Piece}
    (reads : row? text = some [.matchOn .pc]) (denotes : DenotesArms false edits events) :
    Denotes (.line text :: (Edit.nested edits ++ [closeLine])) events := by
  obtain ⟨_, yields, places⟩ := denotes
  exact ⟨_, yields_block reads yields, places_match places⟩

theorem denotes_arm {text : Text} {body others : List Edit} {events otherEvents : List Piece}
    (begun : Bool) (number : Nat) (reads : row? text = some [.arm number])
    (denotes : Denotes body events) (denotesOthers : DenotesArms true others otherEvents) :
    DenotesArms begun (.line text :: (Edit.nested body ++ [closeLine]) ++ others)
      (armEvent .pc begun number :: (events ++ .close :: otherEvents)) := by
  obtain ⟨_, yields, places⟩ := denotes
  obtain ⟨_, yieldsOthers, placesOthers⟩ := denotesOthers
  refine ⟨_, yields_append (yields_block reads yields) yieldsOthers, ?_⟩
  simpa using places_arm begun number places placesOthers

theorem denotes_other_arm {text : Text} {body : List Edit} {events : List Piece}
    (reads : row? text = some [.otherArm]) (denotes : Denotes body events) :
    DenotesArms true (.line text :: (Edit.nested body ++ [closeLine]))
      (.otherwise :: (events ++ [.close])) := by
  obtain ⟨_, yields, places⟩ := denotes
  exact ⟨_, yields_block reads yields, places_other_arm places⟩

theorem read_function {attributes headText lastText : Text} {head : Head} {status : Status}
    {value : Expr} {body : List Edit} {events : List Piece}
    (readsAttributes : row? attributes = some [])
    (readsHead : row? headText = some [.event (.define head)])
    (readsLast : row? lastText = some [.last status value]) (denotes : Denotes body events) :
    read (write indentWidth 0 (.line attributes :: .line headText ::
        (Edit.nested (body ++ [.line lastText]) ++ [closeLine]))) =
      assemble (.define head ::
        (events ++ [.simple (.plain (.answer status value)), .close])) := by
  obtain ⟨lines, yields, places⟩ := denotes
  have whole := yields_append (yields_row readsAttributes)
    (yields_block readsHead (yields_append yields (yields_row readsLast)))
  have answered : pieces [.last status value, .event .close] [.body] =
      some [.simple (.plain (.answer status value)), .close] := rfl
  have ended := places .body [] _ _ rfl answered
  have placed : pieces (.event (.define head) ::
      (lines ++ [.last status value, .event .close])) [] =
      some ([.define head] ++ (events ++ [.simple (.plain (.answer status value)), .close])) :=
    pieces_line rfl ended
  simp only [List.nil_append, List.cons_append, List.append_assoc] at whole placed
  rw [read, yields_written row_no_newline whole, Option.bind_some, placed, Option.bind_some]

end StackMachine.Rust

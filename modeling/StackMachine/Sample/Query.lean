import StackMachine.Machine
import StackMachine.Random.Draw
import StackMachine.Sample.Axes

/-!
Queries: inputs for a program, each with the answer of the machine and the reason why it was chosen.
No input occurs twice, and a reason that lost all its inputs to others gets one of its own if a
short search finds it.
-/

namespace StackMachine.Sample

set_option autoImplicit false

open StackMachine.Random

inductive QueryTag where
  | coverage | boundary | typical | adversarial
deriving DecidableEq, Repr

def QueryTag.all : List QueryTag := [.coverage, .boundary, .typical, .adversarial]

def QueryTag.name : QueryTag → Text
  | .coverage => "coverage"
  | .boundary => "boundary"
  | .typical => "typical"
  | .adversarial => "adversarial"

structure Query where
  tag : QueryTag
  input : List Word
  output : Result
deriving DecidableEq, Repr

namespace Query

def ask (program : Program) (tag : QueryTag) (input : List Word) : Query :=
  ⟨tag, input, program.evaluate input⟩

/-- The shortest length that is not empty, as far as the axes admit one. -/
def shortLength (axes : Axes) : Nat := min (max axes.minLength 1) axes.maxLength

def middleLength (axes : Axes) : Nat :=
  axes.minLength + (axes.maxLength - axes.minLength) / 2

/-- Drops every item that occurred before. -/
def distinct (lengths : List Nat) : List Nat :=
  lengths.foldl (fun kept length => if length ∈ kept then kept else kept ++ [length]) []

def coverageLengths (axes : Axes) : List Nat :=
  distinct [axes.minLength, shortLength axes, middleLength axes]

def randomInput (axes : Axes) (length : Nat) : Draw (List Word) :=
  Draw.words axes.value.low axes.value.high length

def coverageInputs (axes : Axes) : Draw (List (List Word)) :=
  Draw.sequence ((coverageLengths axes).map (randomInput axes))

/-- Nothing but least and nothing but greatest elements, at both extreme lengths. -/
def boundaryInputs (axes : Axes) : List (List Word) :=
  (distinct [axes.minLength, axes.maxLength]).flatMap fun length =>
    [List.replicate length axes.value.low, List.replicate length axes.value.high]

def typicalCount : Nat := 4

def typicalInput (axes : Axes) : Draw (List Word) := do
  let length ← Draw.word axes.listLength.low axes.listLength.high
  randomInput axes length.toInt.toNat

def typicalInputs (axes : Axes) : Draw (List (List Word)) :=
  Draw.sequence (List.replicate typicalCount (typicalInput axes))

/-- The elements zero, one and minus one in turn. -/
def patternElement (index : Nat) : Word :=
  if index % 3 = 0 then 0 else if index % 3 = 1 then 1 else -1

/-- The pattern and nothing but zeros, both moved into the range of values. -/
def adversarialInputs (axes : Axes) : List (List Word) :=
  [(List.range (shortLength axes)).map fun index => axes.value.clamp (patternElement index),
    List.replicate (shortLength axes) (axes.value.clamp 0)]

/-- Keeps the first query of each input. -/
def distinctInputs (queries : List Query) : List Query :=
  queries.foldl
    (fun kept query => if kept.any (·.input == query.input) then kept else kept ++ [query]) []

/-- The number of values, or the greatest word if there are more. -/
def valueCount (axes : Axes) : Nat :=
  min ((axes.value.high.toInt - axes.value.low.toInt).toNat + 1) Int64.maxValue.toInt.toNat

def lengthCount (axes : Axes) : Nat := axes.maxLength - axes.minLength + 1

/-- The input that a search for a missing reason tries in its round `attempt`: lengths and values
run through their ranges. -/
def candidate (axes : Axes) (attempt : Nat) : List Word :=
  if axes.maxLength = 0 then []
  else
    (List.range (axes.minLength + attempt % lengthCount axes)).map fun index =>
      axes.value.clamp
        (Word.add axes.value.low (Int64.ofNat ((attempt + index) % valueCount axes)))

def attempts : Nat := 32

/-- Adds a query for a reason that has none, with the first candidate that is not taken. -/
def backfill (program : Program) (axes : Axes) (queries : List Query) (tag : QueryTag) :
    List Query :=
  if queries.any (·.tag = tag) then queries
  else
    let free (attempt : Nat) : Bool := queries.all (·.input != candidate axes attempt)
    match (List.range attempts).find? free with
    | some attempt => queries ++ [ask program tag (candidate axes attempt)]
    | none => queries

/-- All queries before the repeated inputs are dropped. -/
def proposals (program : Program) (axes : Axes) : Draw (List Query) := do
  let coverage ← coverageInputs axes
  let typical ← typicalInputs axes
  return coverage.map (ask program .coverage) ++
    (boundaryInputs axes).map (ask program .boundary) ++
    typical.map (ask program .typical) ++
    (adversarialInputs axes).map (ask program .adversarial)

/-- The queries for a program, for axes that pass their check. -/
def generate (program : Program) (axes : Axes) : Draw (List Query) := do
  let queries ← proposals program axes
  return QueryTag.all.foldl (backfill program axes) (distinctInputs queries)

end Query

end StackMachine.Sample

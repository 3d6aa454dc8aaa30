import StackMachine.Assembly.Listing
import StackMachine.Command.Load
import StackMachine.Command.Usage
import StackMachine.Random.Twister
import StackMachine.Sample.Program
import StackMachine.Sample.Query
import StackMachine.Sample.Template

/-!
The command that prints a random program, on request with queries. All but the program itself is
written as comments, so the output is a program file again.
-/

namespace StackMachine.Command

set_option autoImplicit false

open StackMachine.Random StackMachine.Sample

structure SampleRequest where
  seed : Option UInt64
  template : Option Template
  withQueries : Bool
deriving DecidableEq, Repr

inductive SampleMisuse where
  | invalidSeed (text : Text)
  | invalidDifficulty
  /-- Arguments that make no request at all. -/
  | arguments
deriving DecidableEq, Repr

def SampleMisuse.message : SampleMisuse → Text
  | .invalidSeed text => "error: invalid seed '" ++ text ++ "'\n"
  | .invalidDifficulty => "error: template difficulty must be 1..5\n"
  | .arguments => usage

/-- A seed is a number that is not negative. -/
def readSeed? (text : Text) : Option UInt64 :=
  match Decimal.toWord? text with
  | some value => if 0 ≤ value then some value.toUInt64 else none
  | none => none

def readTemplate? (text : Text) : Option Template :=
  match Decimal.toWord? text with
  | some value =>
      if Template.minDifficulty ≤ value.toInt ∧ value.toInt ≤ Template.maxDifficulty then
        some (.ofDifficulty value.toInt)
      else none
  | none => none

namespace SampleRequest

def blank : SampleRequest := ⟨none, none, false⟩

def read (request : SampleRequest) : List Text → Except SampleMisuse SampleRequest
  | [] => .ok request
  | argument :: rest =>
      if argument = Text.ascii "--queries" then read { request with withQueries := true } rest
      else
        match rest with
        | [] => .error .arguments
        | value :: rest =>
            if argument = Text.ascii "--seed" then
              match readSeed? value with
              | some seed => read { request with seed := some seed } rest
              | none => .error (.invalidSeed value)
            else if argument = Text.ascii "--template" then
              match readTemplate? value with
              | some template => read { request with template := some template } rest
              | none => .error .invalidDifficulty
            else .error .arguments

/-- The program that the request asks for. -/
def program (request : SampleRequest) : Draw (Except SampleError Program) :=
  match request.template with
  | some template => return .ok (← template.program)
  | none => Sample.program .standard

def queryLine (query : Query) : Text :=
  "# query " ++ query.tag.name ++ " [" ++
    Text.join "," (query.input.map fun value => Decimal.ofInt value.toInt) ++ "] -> " ++
    Decimal.ofNat query.output.status.code ++ "," ++ Decimal.ofInt query.output.value.toInt ++ "\n"

/-- The queries of the request; none if it asks for none, and then nothing is drawn. -/
def queries (request : SampleRequest) (program : Program) : Draw (List Query) :=
  if request.withQueries then Query.generate program .standard else return []

def seedLine (seed : UInt64) : Text := "# seed " ++ Decimal.ofNat seed.toNat ++ "\n"

/-- The program and its queries. -/
def outcome (request : SampleRequest) : Draw (Except SampleError (Program × List Query)) := do
  match ← request.program with
  | .error error => return .error error
  | .ok program =>
      let queries ← request.queries program
      return .ok (program, queries)

def script (request : SampleRequest) (seed : UInt64) : Script :=
  match (Twister.run request.outcome (.ofSeed seed)).1 with
  | .error error =>
      match error.message? with
      | some message => .fail (Diagnostic.print [] (.unlocated message))
      | none => .abort
  | .ok (program, queries) =>
      .done (seedLine seed ++ Assembly.listing program ++ queries.flatMap queryLine)

end SampleRequest

def sample (arguments : List Text) : Script :=
  match SampleRequest.blank.read arguments with
  | .error misuse => .fail misuse.message
  | .ok request =>
      match request.seed with
      | some seed => request.script seed
      | none => .seed request.script

end StackMachine.Command

import Mathlib.Algebra.Group.Nat.Defs
import StackMachine.Proofs.Command.Printed
import StackMachine.Proofs.Command.Storage
import StackMachine.Proofs.Random.Twister
import StackMachine.Proofs.Sample.Answers
import StackMachine.Proofs.Sample.Program

/-!
# Sampling a program and running it

A sample succeeds whatever the draws give, prints a file of its program, and running that file on
the list of any printed query line prints the answer of that line.
-/

namespace StackMachine.Command

set_option autoImplicit false

open StackMachine.Random StackMachine.Sample

namespace SampleRequest

theorem answerable_program (request : SampleRequest) : request.program.Answerable := by
  rw [program]
  cases request.template with
  | none => exact Sample.answerable_program
  | some template =>
      exact Draw.answerable_bind _ _ template.answerable_program fun program _ => .done _

theorem yields_program (request : SampleRequest) (outcome : Except SampleError Program)
    (drawn : request.program.Yields outcome) : ∃ program, outcome = .ok program := by
  rw [program] at drawn
  cases template : request.template with
  | none =>
      rw [template] at drawn
      exact Sample.yields_program outcome drawn
  | some template =>
      simp only [template, Draw.yields_bind, Draw.yields_pure] at drawn
      obtain ⟨program, -, rfl⟩ := drawn
      exact ⟨program, rfl⟩

theorem answerable_queries (request : SampleRequest) (program : Program) :
    (request.queries program).Answerable := by
  rw [queries]
  split
  · exact Query.answerable_generate program Axes.standard_valid
  · exact .done []

theorem answerable_outcome (request : SampleRequest) : request.outcome.Answerable := by
  refine Draw.answerable_bind _ _ request.answerable_program fun outcome _ => ?_
  cases outcome with
  | error error => exact .done _
  | ok program =>
      exact Draw.answerable_bind _ _ (request.answerable_queries program) fun queries _ => .done _

theorem yields_outcome (request : SampleRequest)
    (outcome : Except SampleError (Program × List Query)) (drawn : request.outcome.Yields outcome) :
    ∃ program queries, outcome = .ok (program, queries) ∧
      (request.queries program).Yields queries := by
  obtain ⟨sampled, drawnProgram, rest⟩ := (Draw.yields_bind _ _ _).mp drawn
  obtain ⟨program, rfl⟩ := request.yields_program sampled drawnProgram
  simp only [Draw.yields_bind, Draw.yields_pure] at rest
  obtain ⟨queries, drawnQueries, rfl⟩ := rest
  exact ⟨program, queries, rfl, drawnQueries⟩

end SampleRequest

theorem run_prints (program : Program) (inputs : List Word) (path content : Text)
    (storage : Storage) (entropy : UInt64) (named : path ≠ [])
    (read : storage.read path = some content) (plain : looksLikeOption path = false)
    (parsed : Assembly.parse content = .ok program) :
    (tool ("run" :: runArguments path (inputText inputs))).runIn entropy storage =
      (⟨0, answerText (program.evaluate inputs) ++ "\n", []⟩, storage) := by
  have request := read_run_arguments path inputs named plain
  have command : tool ("run" :: runArguments path (inputText inputs)) =
      run (runArguments path (inputText inputs)) := rfl
  rw [command, run, request]
  simp only [RunRequest.script, withProgram, Script.runIn, read, parsed]
  rfl

/-- What the print of a program and its queries promises whoever runs it. -/
structure Session (seed : UInt64) (program : Program) (queries : List Query) : Prop where
  rows : Text.lines (printed seed program queries) = printedRows seed.toNat program queries
  parsed : Assembly.parse (printed seed program queries) = .ok program
  distinct : (queries.map fun query => inputText query.input).Nodup
  tagged : ∀ tag, ∃ query ∈ queries, query.tag = tag
  answered : ∀ tag list answer,
    queryRow tag list answer ∈ Text.lines (printed seed program queries) →
      ∀ path (storage : Storage) entropy, path ≠ [] → looksLikeOption path = false →
        storage.read path = some (printed seed program queries) →
          (tool ("run" :: runArguments path list)).runIn entropy storage =
            (⟨0, answer ++ "\n", []⟩, storage)

theorem session_of_generated (seed : UInt64) (program : Program) (queries : List Query)
    (drawn : (Query.generate program .standard).Yields queries) :
    Session seed program queries := by
  have sound := Query.sound_generate program .standard queries drawn
  have rows := lines_printed seed program queries
  have parsed := parse_printed seed program queries
  have distinct : (queries.map fun query => inputText query.input).Nodup := by
    have texts := sound.distinct.map_on fun left _ right _ same =>
      input_text_injective left right same
    rwa [Query.inputs, List.map_map] at texts
  refine ⟨rows, parsed, distinct, Query.every_tag_standard program queries drawn, ?_⟩
  intro tag list answer row path storage entropy named plain read
  rw [rows] at row
  obtain ⟨query, known, -, rfl, rfl⟩ := row_of_printed row
  rw [sound.answered query known]
  exact run_prints program query.input path _ storage entropy named read plain parsed

theorem session_of_outcome (request : SampleRequest) (wanted : request.withQueries = true)
    (seed : UInt64) (outcome : Except SampleError (Program × List Query))
    (drawn : request.outcome.Yields outcome) :
    ∃ program queries, outcome = .ok (program, queries) ∧ Session seed program queries := by
  obtain ⟨program, queries, sampled, generated⟩ := request.yields_outcome outcome drawn
  rw [SampleRequest.queries, if_pos wanted] at generated
  exact ⟨program, queries, sampled, session_of_generated seed program queries generated⟩

/-- For every seed that the command admits, with a difficulty or without: whatever words between
their bounds the draws are answered with, the print is a session, and what the command prints is the
print for the answers of the twister. -/
theorem sample_and_run_agree (seed : Nat) (difficulty : Option Nat) (small : seed < 2 ^ 63)
    (levels : ∀ level ∈ difficulty, 1 ≤ level ∧ level ≤ 5) :
    (∀ outcome, (sampleRequest seed difficulty).outcome.Yields outcome →
      ∃ program queries, outcome = .ok (program, queries) ∧
        Session (.ofNat seed) program queries) ∧
      ∃ program queries,
        (Twister.run (sampleRequest seed difficulty).outcome (.ofSeed (.ofNat seed))).1 =
          .ok (program, queries) ∧
        Session (.ofNat seed) program queries ∧
        ∀ entropy (storage : Storage),
          (tool ("sample" :: sampleArguments seed difficulty)).runIn entropy storage =
            (⟨0, printed (.ofNat seed) program queries, []⟩, storage) := by
  have request := read_sample_arguments seed difficulty small levels
  have sessions := session_of_outcome (sampleRequest seed difficulty) rfl (.ofNat seed)
  have drawn := Twister.run_yields _ (sampleRequest seed difficulty).answerable_outcome
    (.ofSeed (.ofNat seed))
  obtain ⟨program, queries, sampled, session⟩ := sessions _ drawn
  refine ⟨sessions, program, queries, sampled, session, ?_⟩
  intro entropy storage
  have command : tool ("sample" :: sampleArguments seed difficulty) =
      sample (sampleArguments seed difficulty) := rfl
  rw [command, sample, request]
  change ((sampleRequest seed difficulty).script (.ofNat seed)).runIn entropy storage = _
  rw [SampleRequest.script, sampled]
  rfl

/-- With the greatest seed and the hardest template, the print is kept as a file behind a path through
a directory, and run on the list of a boundary line. -/
theorem sample_and_run_agree_hardest :
    ∃ content list answer,
      let storage : Storage :=
        { place := fun path => if path = "kept/search.sbc" then .file "search.sbc" else .nowhere
          readable := fun _ => true
          writable := fun _ => false
          broken? := fun _ _ => none
          content? := fun _ => some content }
      (∀ entropy (storage : Storage),
        (tool ("sample" :: sampleArguments 9223372036854775807 (some 5))).runIn entropy storage =
          (⟨0, content, []⟩, storage)) ∧
      queryRow QueryTag.boundary.name list answer ∈ Text.lines content ∧
      ∀ entropy,
        (tool ("run" :: runArguments "kept/search.sbc" list)).runIn entropy storage =
          (⟨0, answer ++ "\n", []⟩, storage) := by
  obtain ⟨-, program, queries, -, session, sampled⟩ :=
    sample_and_run_agree 9223372036854775807 (some 5) (by decide) (by simp)
  obtain ⟨query, known, tagged⟩ := session.tagged .boundary
  have row : queryRow QueryTag.boundary.name (inputText query.input) (answerText query.output) ∈
      Text.lines (printed (.ofNat 9223372036854775807) program queries) := by
    rw [session.rows, printedRows, ← tagged]
    exact List.mem_cons_of_mem _ (List.mem_append_right _ (List.mem_map_of_mem known))
  refine ⟨_, _, _, sampled, row, fun entropy => ?_⟩
  exact session.answered _ _ _ row _ _ entropy (by decide) (by decide) rfl

end StackMachine.Command

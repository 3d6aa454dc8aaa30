import StackMachine.Command.Tool
import StackMachine.Proofs.Command.Groups
import StackMachine.Proofs.Command.RunGroups
import StackMachine.Proofs.Command.Session

/-!
# How the command line ends

A command fails with a message and without any trace of it in the files, or it succeeds. Only a
render with an output changes a file, which it opens once the source is made; so the output may be
the program file. A write that fails after that is the one failure that can leave a trace.
-/

namespace StackMachine.Command

set_option autoImplicit false

open StackMachine.Random
open StackMachine.Render (Language)

theorem usage_nonempty : usage ≠ [] := by decide +kernel

theorem message_nonempty (front : Text) (back : String) (ended : Text.ascii back ≠ []) :
    front ++ Text.ascii back ≠ [] :=
  List.append_ne_nil_of_right_ne_nil front ended

theorem diagnostic_nonempty (path : Text) (diagnostic : Diagnostic) :
    diagnostic.print path ≠ [] :=
  message_nonempty _ "\n" (by decide)

theorem rejection_nonempty (path : Text) (rejection : Assembly.Rejection) :
    Diagnostic.printAll path rejection.all ≠ [] := by
  rw [Diagnostic.printAll, Assembly.Rejection.all, List.flatMap_cons]
  exact List.append_ne_nil_of_left_ne_nil (diagnostic_nonempty path rejection.first) _

theorem RenderError.message_nonempty (error : RenderError) : error.message ≠ [] := by
  cases error with
  | unknownLanguage | invalidName => exact Command.message_nonempty _ "'\n" (by decide)
  | misuse => exact usage_nonempty

theorem SampleMisuse.message_nonempty (misuse : SampleMisuse) : misuse.message ≠ [] := by
  cases misuse with
  | invalidSeed => exact Command.message_nonempty _ "'\n" (by decide)
  | invalidDifficulty => decide
  | arguments => exact usage_nonempty

theorem trace_from_nonempty (program : Program) (inputs : List Word) (remaining : Nat)
    (config : Config) (records : List TraceRecord) :
    program.traceFrom inputs remaining config records ≠ [] := by
  induction remaining generalizing config records with
  | zero => exact List.cons_ne_nil _ _
  | succ remaining ih =>
      rw [Program.traceFrom]
      cases program.step inputs config with
      | next config => exact ih config _
      | done stop => exact List.cons_ne_nil _ _

theorem record_nonempty (record : TraceRecord) : record.text ≠ [] := by
  cases record with
  | step | exit => exact message_nonempty _ "\n" (by decide)

theorem trace_text_nil_iff (program : Program) (mode : TraceMode) (inputs : List Word) :
    program.traceText mode inputs = [] ↔ mode ≠ .steps := by
  cases mode with
  | off => exact ⟨fun _ => by decide, fun _ => rfl⟩
  | steps =>
      have some : program.trace inputs ≠ [] :=
        mt List.reverse_eq_nil_iff.mp (trace_from_nonempty _ _ _ _ _)
      obtain ⟨first, rest, recorded⟩ := List.exists_cons_of_ne_nil some
      have written : program.traceText .steps inputs = first.text ++ rest.flatMap TraceRecord.text := by
        change (program.trace inputs).flatMap TraceRecord.text = _
        rw [recorded, List.flatMap_cons]
      rw [written]
      exact ⟨fun empty => absurd empty
        (List.append_ne_nil_of_left_ne_nil (record_nonempty first) _), fun off => absurd rfl off⟩

theorem RunGroup.traces_iff (group : RunGroup) (sound : group.Sound) :
    Text.ascii "--trace" ∈ group.words ↔ group = .trace := by
  cases group with
  | trace => simp [words]
  | verbose | empty => decide
  | maxSteps steps =>
      have other : Text.ascii "--trace" ≠ steps := by
        rintro rfl
        obtain ⟨value, spelled, -⟩ := sound
        cases (Decimal.literal_iff _ _).mpr spelled
      simpa [words, other] using by decide
  | input list =>
      have other : Text.ascii "--trace" ≠ list := by
        rintro rfl
        obtain ⟨inputs, accepted⟩ := sound
        cases accepted
      simpa [words, other] using by decide
  | file path =>
      have other : Text.ascii "--trace" ≠ path := by
        rintro rfl
        cases sound.2
      simp [words, other]

/-- The trace is in effect once any argument asks for it: no other option takes that argument as its
value. -/
theorem RunRequest.traces_of_read (request : RunRequest) (arguments : List Text)
    (accepted : blank.read arguments = .ok request) :
    request.options.trace = .steps ↔ Text.ascii "--trace" ∈ arguments := by
  obtain ⟨groups, rfl, requests, rfl⟩ := (read_iff arguments request).mp accepted
  have asked : Text.ascii "--trace" ∈ groups.flatMap RunGroup.words ↔ .trace ∈ groups := by
    rw [List.mem_flatMap]
    constructor
    · rintro ⟨group, known, word⟩
      exact (group.traces_iff (requests.sound group known)).mp word ▸ known
    · exact fun known => ⟨.trace, known, List.mem_singleton_self _⟩
  rw [asked]
  simp [RunGroup.request, RunGroup.mode]

/-- A command failed: it printed nothing, said why, and touched no file. -/
structure Failed (before : Storage) (ending : Reply × Storage) : Prop where
  code : ending.1.code = 1
  silent : ending.1.out = []
  explained : ending.1.err ≠ []
  untouched : ending.2 = before

theorem failed_of_fail (entropy : UInt64) (before : Storage) (err : Text) (explained : err ≠ []) :
    Failed before ((Script.fail err).runIn entropy before) :=
  ⟨rfl, rfl, explained, rfl⟩

/-- A command that needs a program fails without one, and touches no file up to then. -/
theorem with_program_ends (entropy : UInt64) (before : Storage) (path : Text)
    (proceed : Program → Script) :
    Failed before ((withProgram path proceed).runIn entropy before) ∨
      ∃ text program, before.read path = some text ∧ Assembly.parse text = .ok program ∧
        (withProgram path proceed).runIn entropy before = (proceed program).runIn entropy before := by
  rw [withProgram, Script.runIn]
  cases content : before.read path with
  | none => exact .inl (failed_of_fail _ _ _ (diagnostic_nonempty path _))
  | some text =>
      simp only
      cases parsed : Assembly.parse text with
      | error rejection =>
          exact .inl (failed_of_fail _ _ _ (rejection_nonempty path rejection))
      | ok program => exact .inr ⟨text, program, rfl, parsed, rfl⟩

theorem run_ends (entropy : UInt64) (before : Storage) (arguments : List Text) :
    Failed before ((run arguments).runIn entropy before) ∨
      ∃ out err, (run arguments).runIn entropy before = (⟨0, out, err⟩, before) ∧
        (err = [] ↔ Text.ascii "--trace" ∉ arguments) := by
  rw [run]
  cases read : RunRequest.blank.read arguments with
  | error error =>
      exact .inl (failed_of_fail _ _ _ (List.append_ne_nil_of_right_ne_nil _ usage_nonempty))
  | ok request =>
      have traces := RunRequest.traces_of_read request arguments read
      rcases with_program_ends entropy before request.path _ with
        failed | ⟨_, program, -, -, same⟩
      · exact .inl failed
      · refine .inr ⟨_, _, same, ?_⟩
        rw [trace_text_nil_iff, Ne, traces]

/-- With a seed the sample succeeds, whatever the draws are. -/
theorem script_samples (request : SampleRequest) (seed : UInt64) :
    ∃ out, request.script seed = .done out := by
  have drawn := Twister.run_yields _ request.answerable_outcome (.ofSeed seed)
  obtain ⟨program, queries, sampled, -⟩ := request.yields_outcome _ drawn
  rw [SampleRequest.script, sampled]
  exact ⟨_, rfl⟩

theorem sample_ends (entropy : UInt64) (before : Storage) (arguments : List Text) :
    Failed before ((sample arguments).runIn entropy before) ∨
      ∃ out, (sample arguments).runIn entropy before = (⟨0, out, []⟩, before) := by
  rw [sample]
  cases SampleRequest.blank.read arguments with
  | error misuse => exact .inl (failed_of_fail _ _ _ misuse.message_nonempty)
  | ok request =>
      right
      cases given : request.seed with
      | some seed =>
          obtain ⟨out, sampled⟩ := script_samples request seed
          exact ⟨out, by simp only [given, sampled]; rfl⟩
      | none =>
          obtain ⟨out, sampled⟩ := script_samples request entropy
          exact ⟨out, by simp only [given, Script.runIn, sampled]; rfl⟩

/-- What the groups of a render come to: the source of the program as it was before, printed or
written where the output leads. -/
def Rendered (groups : List RenderGroup) (before : Storage) (ending : Reply × Storage) : Prop :=
  ∃ path language text program,
    RenderGroup.paths groups = [path] ∧
    (RenderGroup.last? .language groups).bind Language.ofName? = some language ∧
    before.read path = some text ∧ Assembly.parse text = .ok program ∧
    let source := language.render ((RenderGroup.last? .name groups).getD "f") program
    let output := (RenderGroup.last? .output groups).getD []
    (output = [] → ending = (⟨0, source, []⟩, before)) ∧
      (output ≠ [] → ∃ file, before.place output = .file file ∧
        ending = (⟨0, [], []⟩, before.replace file source))

theorem deliver_ends (entropy : UInt64) {before : Storage} (reliable : before.Reliable)
    (request : RenderRequest) (source : Text) :
    Failed before ((request.deliver source).runIn entropy before) ∨
      (request.output = [] →
          (request.deliver source).runIn entropy before = (⟨0, source, []⟩, before)) ∧
        (request.output ≠ [] → ∃ file, before.place request.output = .file file ∧
          (request.deliver source).runIn entropy before =
            (⟨0, [], []⟩, before.replace file source)) := by
  rw [RenderRequest.deliver]
  split
  · next none => exact .inr ⟨fun _ => rfl, fun some => absurd none some⟩
  · next some =>
      rw [Script.runIn]
      rcases before.write_reliable reliable request.output source with
        unopened | ⟨file, led, written⟩
      · rw [unopened]
        exact .inl (failed_of_fail _ _ _ (message_nonempty _ "' for writing\n" (by decide)))
      · rw [written]
        exact .inr ⟨fun none => absurd none some, fun _ => ⟨file, led, rfl⟩⟩

/-- A write that fails is reported, and what it left in the output is all that changed. -/
theorem deliver_unwritten (entropy : UInt64) {before : Storage} (request : RenderRequest)
    (source left : Text) (file : Text) (named : request.output ≠ [])
    (led : before.place request.output = .file file)
    (opened : before.writable request.output = true)
    (broken : before.broken? request.output source = some left) :
    (request.deliver source).runIn entropy before =
      (⟨1, [], "error: failed to write '" ++ request.output ++ "'\n"⟩,
        before.replace file left) := by
  rw [RenderRequest.deliver, if_neg named, Script.runIn, Storage.write, led]
  simp only [opened, if_true, broken]
  rfl

theorem checked_language {request : RenderRequest} {language : Language}
    (checked : request.check = .ok language) :
    request.language = some language ∧ request.path ≠ [] ∧
      language.isFunctionName request.name = true := by
  rw [RenderRequest.check] at checked
  split at checked
  · cases checked
  · next chosen =>
      split at checked
      · cases checked
      · next named =>
          split at checked
          · next admitted =>
              obtain rfl := Except.ok.inj checked
              exact ⟨chosen, named, admitted⟩
          · cases checked

theorem rendered_of_delivered {groups : List RenderGroup} {request : RenderRequest}
    {language : Language} {text : Text} {program : Program} {before : Storage}
    {ending : Reply × Storage} (extended : RenderRequest.Extended .blank request groups)
    (located : request.path ≠ []) (chosen : request.language = some language)
    (content : before.read request.path = some text)
    (parsed : Assembly.parse text = .ok program)
    (printed : request.output = [] →
      ending = (⟨0, language.render request.name program, []⟩, before))
    (written : request.output ≠ [] → ∃ file, before.place request.output = .file file ∧
      ending = (⟨0, [], []⟩, before.replace file (language.render request.name program))) :
    Rendered groups before ending := by
  have paths : RenderGroup.paths groups = [request.path] := by
    rcases extended.paths with ⟨-, unnamed⟩ | ⟨-, one⟩
    · exact absurd unnamed located
    · exact one
  have named : (RenderGroup.last? .language groups).bind Language.ofName? = some language := by
    have last := extended.language
    rw [chosen] at last
    cases value : RenderGroup.last? .language groups with
    | none =>
        rw [value] at last
        cases last
    | some name =>
        rw [value] at last
        exact last.symm
  refine ⟨request.path, language, text, program, paths, named, content, parsed, ?_⟩
  have name : (RenderGroup.last? .name groups).getD "f" = request.name := extended.name.symm
  have output : (RenderGroup.last? .output groups).getD [] = request.output :=
    extended.output.symm
  simp only [name, output]
  exact ⟨printed, written⟩

theorem render_ends (entropy : UInt64) {before : Storage} (reliable : before.Reliable)
    (arguments : List Text) :
    Failed before ((render arguments).runIn entropy before) ∨
      ∃ groups : List RenderGroup, arguments = groups.flatMap RenderGroup.words ∧
        (∀ group ∈ groups, group.Plain) ∧
        Rendered groups before ((render arguments).runIn entropy before) := by
  rw [render]
  cases read : RenderRequest.blank.read arguments with
  | error error => exact .inl (failed_of_fail _ _ _ error.message_nonempty)
  | ok request =>
      simp only [RenderRequest.script]
      cases checked : request.check with
      | error error => exact .inl (failed_of_fail _ _ _ error.message_nonempty)
      | ok language =>
          obtain ⟨chosen, located, -⟩ := checked_language checked
          obtain ⟨groups, spelled, plain, extended⟩ :=
            RenderRequest.groups_of_read _ request arguments read
          rcases with_program_ends entropy before request.path fun program =>
            request.deliver (language.render request.name program) with
            failed | ⟨text, program, content, parsed, same⟩
          · exact .inl failed
          rw [same]
          rcases deliver_ends entropy reliable request (language.render request.name program) with
            failed | ⟨printed, written⟩
          · exact .inl failed
          · exact .inr ⟨groups, spelled, plain,
              rendered_of_delivered extended located chosen content parsed printed written⟩

/-- The arguments of a run that traces. -/
def Traces (arguments : List Text) : Prop :=
  ∃ rest, arguments = Text.ascii "run" :: rest ∧ Text.ascii "--trace" ∈ rest

/-- The arguments of a render whose output is not empty. -/
def Redirects (arguments : List Text) : Prop :=
  ∃ groups : List RenderGroup,
    arguments = Text.ascii "render" :: groups.flatMap RenderGroup.words ∧
      (∀ group ∈ groups, group.Plain) ∧ (RenderGroup.last? .output groups).getD [] ≠ []

/-- How the command line ends, seen from outside. -/
structure EndsCleanly (arguments : List Text) (before : Storage) (ending : Reply × Storage) :
    Prop where
  code : ending.1.code = 0 ∨ ending.1.code = 1
  failed : ending.1.code = 1 → ending.1.out = [] ∧ ending.1.err ≠ [] ∧ ending.2 = before
  traced : ending.1.code = 0 → (ending.1.err = [] ↔ ¬Traces arguments)
  kept : ¬Redirects arguments → ending.2 = before
  rendered : ending.1.code = 0 → ∀ rest, arguments = Text.ascii "render" :: rest →
    ∃ groups : List RenderGroup, rest = groups.flatMap RenderGroup.words ∧
      (∀ group ∈ groups, group.Plain) ∧ Rendered groups before ending

theorem ends_cleanly_of_failed {arguments : List Text} {before : Storage}
    {ending : Reply × Storage} (failed : Failed before ending) :
    EndsCleanly arguments before ending where
  code := .inr failed.code
  failed _ := ⟨failed.silent, failed.explained, failed.untouched⟩
  traced done := absurd (failed.code.symm.trans done) (by decide)
  kept _ := failed.untouched
  rendered done := absurd (failed.code.symm.trans done) (by decide)

theorem ends_cleanly_of_done {command : Text} {rest : List Text} {before : Storage}
    {out err : Text} (traced : err = [] ↔ ¬Traces (command :: rest))
    (noRender : command ≠ Text.ascii "render") :
    EndsCleanly (command :: rest) before (⟨0, out, err⟩, before) where
  code := .inl rfl
  failed wrong := absurd wrong Nat.zero_ne_one
  traced _ := traced
  kept _ := rfl
  rendered _ _ same := absurd (List.cons.inj same).1 noRender

theorem untraced {command : Text} (noRun : command ≠ Text.ascii "run") (rest : List Text) :
    ([] : Text) = [] ↔ ¬Traces (command :: rest) := by
  refine ⟨fun _ ⟨_, same, _⟩ => noRun (List.cons.inj same).1, fun _ => rfl⟩

theorem rendered_ends_cleanly {groups : List RenderGroup} {before : Storage}
    {ending : Reply × Storage} (plain : ∀ group ∈ groups, group.Plain)
    (rendered : Rendered groups before ending) :
    EndsCleanly (Text.ascii "render" :: groups.flatMap RenderGroup.words) before ending := by
  have noRun : Text.ascii "render" ≠ Text.ascii "run" := by decide
  have quiet := untraced noRun (groups.flatMap RenderGroup.words)
  have ⟨_, _, _, _, _, _, _, _, printed, written⟩ := rendered
  have found (rest : List Text)
      (same : Text.ascii "render" :: groups.flatMap RenderGroup.words =
        Text.ascii "render" :: rest) :
      ∃ groups : List RenderGroup, rest = groups.flatMap RenderGroup.words ∧
        (∀ group ∈ groups, group.Plain) ∧ Rendered groups before ending :=
    ⟨groups, (List.cons.inj same).2.symm, plain, rendered⟩
  by_cases output : (RenderGroup.last? .output groups).getD [] = []
  · obtain rfl := printed output
    exact ⟨.inl rfl, fun wrong => absurd wrong Nat.zero_ne_one, fun _ => quiet, fun _ => rfl,
      fun _ => found⟩
  · obtain ⟨file, -, rfl⟩ := written output
    refine ⟨.inl rfl, fun wrong => absurd wrong Nat.zero_ne_one, fun _ => quiet, fun kept => ?_,
      fun _ => found⟩
    exact absurd ⟨groups, rfl, plain, output⟩ kept

/-- Whatever the arguments and the files are, the command line ends cleanly if no write fails once
the file was opened, also as it runs on a disk. -/
theorem tool_ends_cleanly (entropy : UInt64) (arguments : List Text) :
    (∀ before : Storage, before.Reliable →
        EndsCleanly arguments before ((tool arguments).runIn entropy before)) ∧
      ∀ disk : Disk, (tool arguments).runIn entropy disk.storage =
        (((tool arguments).runOn entropy disk).1,
          ((tool arguments).runOn entropy disk).2.storage) := by
  refine ⟨fun before reliable => ?_, fun disk => Script.run_in_disk entropy _ disk⟩
  cases arguments with
  | nil => exact ends_cleanly_of_failed (failed_of_fail entropy before _ usage_nonempty)
  | cons command rest =>
      rw [tool]
      split
      · next chosen =>
          rw [chosen]
          exact ends_cleanly_of_done (untraced (by decide) rest) (by decide)
      split
      · next chosen =>
          rw [chosen]
          rcases run_ends entropy before rest with failed | ⟨out, err, same, traced⟩
          · exact ends_cleanly_of_failed failed
          · rw [same]
            refine ends_cleanly_of_done (traced.trans ⟨?_, ?_⟩) (by decide)
            · rintro silent ⟨_, listed, asked⟩
              exact silent ((List.cons.inj listed).2 ▸ asked)
            · exact fun silent asked => silent ⟨rest, rfl, asked⟩
      split
      · next chosen =>
          rw [chosen]
          rcases render_ends entropy reliable rest with failed | ⟨groups, rfl, plain, rendered⟩
          · exact ends_cleanly_of_failed failed
          · exact rendered_ends_cleanly plain rendered
      split
      · next chosen =>
          rw [chosen]
          rcases sample_ends entropy before rest with failed | ⟨out, same⟩
          · exact ends_cleanly_of_failed failed
          · rw [same]
            exact ends_cleanly_of_done (untraced (by decide) rest) (by decide)
      · exact ends_cleanly_of_failed (failed_of_fail entropy before _ usage_nonempty)

/-- The source may take the place of the program that it is made from. -/
theorem tool_ends_cleanly_in_place :
    let disk : Disk := ⟨[(Text.ascii "f", Text.ascii "push_const 3\nhalt\n")]⟩
    let arguments := ["render", "./f", "--lang", "rust", "-o", "f"].map Text.ascii
    let program : Program := ⟨[.pushConst 3, .halt], 64, .error, .direct, by decide, by decide⟩
    let written : Disk := ⟨[(Text.ascii "f", Language.rust.render "f" program)]⟩
    disk.storage.Reliable ∧
      EndsCleanly arguments disk.storage ((tool arguments).runIn 0 disk.storage) ∧
      (tool arguments).runIn 0 disk.storage = (⟨0, [], []⟩, written.storage) := by
  intro disk arguments program written
  have reliable : disk.storage.Reliable := fun _ _ => rfl
  have ran : (tool arguments).runOn 0 disk = (⟨0, [], []⟩, written) := by decide +kernel
  obtain ⟨clean, onDisk⟩ := tool_ends_cleanly 0 arguments
  refine ⟨reliable, clean disk.storage reliable, ?_⟩
  rw [onDisk, ran]

end StackMachine.Command

import StackMachine.Command.Render

/-!
# The arguments of a render

Arguments that make a request fall into groups: an option with its value, or a file. The groups say
what is requested; of an option that is repeated the last value counts, and there is one file.
-/

namespace StackMachine.Command

set_option autoImplicit false

open StackMachine.Render (Language)

inductive RenderGroup where
  | option (setting : RenderSetting) (value : Text)
  | file (path : Text)

namespace RenderGroup

def words : RenderGroup → List Text
  | .option setting value => [setting.text, value]
  | .file path => [path]

/-- A file has a name, which does not look like an option. -/
def Plain : RenderGroup → Prop
  | .option _ _ => True
  | .file path => path ≠ [] ∧ looksLikeOption path = false

def value? (wanted : RenderSetting) : RenderGroup → Option Text
  | .option setting value => if setting = wanted then some value else none
  | .file _ => none

def path? : RenderGroup → Option Text
  | .option _ _ => none
  | .file path => some path

def last? (wanted : RenderSetting) (groups : List RenderGroup) : Option Text :=
  groups.reverse.findSome? (value? wanted)

def paths (groups : List RenderGroup) : List Text := groups.filterMap path?

theorem last_cons (wanted : RenderSetting) (group : RenderGroup) (groups : List RenderGroup) :
    last? wanted (group :: groups) = (last? wanted groups).or (group.value? wanted) := by
  rw [last?, last?, List.reverse_cons, List.findSome?_append]
  simp

end RenderGroup

namespace RenderRequest

open RenderGroup

/-- What a request becomes when the groups are added to it. -/
structure Extended (request result : RenderRequest) (groups : List RenderGroup) : Prop where
  name : result.name = (last? .name groups).getD request.name
  output : result.output = (last? .output groups).getD request.output
  language : result.language =
    ((last? .language groups).map Language.ofName?).getD request.language
  paths : (paths groups = [] ∧ result.path = request.path) ∨
    (request.path = [] ∧ paths groups = [result.path])

theorem extended_by_none (request : RenderRequest) : Extended request request [] :=
  ⟨rfl, rfl, rfl, .inl ⟨rfl, rfl⟩⟩

theorem extended_of_last {request middle result : RenderRequest} {group : RenderGroup}
    {groups : List RenderGroup} (rest : Extended middle result groups)
    (name : middle.name = (group.value? .name).getD request.name)
    (output : middle.output = (group.value? .output).getD request.output)
    (language : middle.language =
      ((group.value? .language).map Language.ofName?).getD request.language)
    (files : (RenderGroup.paths (group :: groups) = [] ∧ result.path = request.path) ∨
      (request.path = [] ∧ RenderGroup.paths (group :: groups) = [result.path])) :
    Extended request result (group :: groups) := by
  refine ⟨?_, ?_, ?_, files⟩
  · rw [last_cons, Option.getD_or, ← name, rest.name]
  · rw [last_cons, Option.getD_or, ← output, rest.output]
  · rw [last_cons, Option.map_or, Option.getD_or, ← language, rest.language]

theorem extended_by_option {request middle result : RenderRequest} {setting : RenderSetting}
    {value : Text} {groups : List RenderGroup} (taken : request.set setting value = .ok middle)
    (rest : Extended middle result groups) :
    Extended request result (.option setting value :: groups) := by
  have files := rest.paths
  cases setting with
  | name | output =>
      obtain rfl := Except.ok.inj taken
      exact extended_of_last rest rfl rfl rfl files
  | language =>
      rw [set] at taken
      split at taken
      · next language named =>
          obtain rfl := Except.ok.inj taken
          exact extended_of_last rest rfl rfl (by simp [value?, named]) files
      · cases taken

theorem plain_of_taken {request middle : RenderRequest} {path : Text}
    (taken : request.takePath path = .ok middle) :
    request.path = [] ∧ path ≠ [] ∧ looksLikeOption path = false ∧
      middle = { request with path := path } := by
  rw [takePath] at taken
  split at taken
  · next fresh => exact ⟨fresh.1, fresh.2.1, fresh.2.2, (Except.ok.inj taken).symm⟩
  · cases taken

theorem extended_by_file {request middle result : RenderRequest} {path : Text}
    {groups : List RenderGroup} (taken : request.takePath path = .ok middle)
    (rest : Extended middle result groups) : Extended request result (.file path :: groups) := by
  obtain ⟨fresh, named, -, rfl⟩ := plain_of_taken taken
  have files : RenderGroup.paths (.file path :: groups) = path :: RenderGroup.paths groups := rfl
  refine extended_of_last rest rfl rfl rfl (.inr ⟨fresh, ?_⟩)
  rcases rest.paths with ⟨none, same⟩ | ⟨unnamed, -⟩
  · rw [files, none, same]
  · exact absurd unnamed named

theorem groups_of_read (request result : RenderRequest) (arguments : List Text)
    (accepted : request.read arguments = .ok result) :
    ∃ groups : List RenderGroup, arguments = groups.flatMap words ∧
      (∀ group ∈ groups, group.Plain) ∧ Extended request result groups := by
  fun_induction read request arguments with
  | case1 request =>
      obtain rfl := Except.ok.inj accepted
      exact ⟨[], rfl, by simp, extended_by_none request⟩
  | case2 request argument setting value rest named middle taken ih =>
      obtain ⟨groups, rfl, plain, extended⟩ := ih accepted
      have text : setting.text = argument := by
        simpa using List.find?_some named
      refine ⟨.option setting value :: groups, by simp [words, text], ?_,
        extended_by_option taken extended⟩
      exact List.forall_mem_cons.mpr ⟨trivial, plain⟩
  | case4 request argument rest middle taken noOption ih =>
      obtain ⟨groups, rfl, plain, extended⟩ := ih accepted
      obtain ⟨-, named, noHyphen, -⟩ := plain_of_taken taken
      refine ⟨.file argument :: groups, by simp [words], ?_, extended_by_file taken extended⟩
      exact List.forall_mem_cons.mpr ⟨⟨named, noHyphen⟩, plain⟩
  | case3 | case5 => cases accepted

end RenderRequest

end StackMachine.Command

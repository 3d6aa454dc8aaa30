import StackMachine.Proofs.Assembly.Literal
import StackMachine.Proofs.Command.Arguments
import StackMachine.Proofs.Command.Storage

/-!
# The arguments of a run

Arguments that are accepted fall into groups: a flag, an option with its value, the file, or an
empty argument that stands before the file. What is requested is said by the groups and not by their
order, but for a repeated option, of which the last value counts.
-/

namespace StackMachine.Command

set_option autoImplicit false

inductive RunGroup where
  | trace
  | verbose
  | maxSteps (steps : Text)
  | input (list : Text)
  | file (path : Text)
  | empty
deriving DecidableEq

namespace RunGroup

def words : RunGroup → List Text
  | .trace => ["--trace"]
  | .verbose => ["--verbose"]
  | .maxSteps steps => ["--max-steps", steps]
  | .input list => ["--input", list]
  | .file path => [path]
  | .empty => [[]]

/-- The budget is the spelling of a positive word, the list of inputs is one, and the file has a
name, which does not look like an option. -/
def Sound : RunGroup → Prop
  | .maxSteps steps => ∃ value : Word, Decimal.Literal steps value ∧ 1 ≤ value
  | .input list => ∃ inputs, readInputs? list = some inputs
  | .file path => path ≠ [] ∧ looksLikeOption path = false
  | .trace | .verbose | .empty => True

def steps? : RunGroup → Option Text
  | .maxSteps steps => some steps
  | _ => none

def list? : RunGroup → Option Text
  | .input list => some list
  | _ => none

def path? : RunGroup → Option Text
  | .file path => some path
  | _ => none

variable (groups : List RunGroup)

/-- The budgets that the groups name, in their order. -/
def budgets : List Text := groups.filterMap steps?

def lists : List Text := groups.filterMap list?

def paths : List Text := groups.filterMap path?

/-- No empty argument stands behind a file. -/
def EmptiesFirst : Prop :=
  groups.Pairwise fun earlier later => later = .empty → earlier.path? = none

/-- Groups that make a request: each is sound in itself, and there is one file. -/
structure Requests : Prop where
  sound : ∀ group ∈ groups, group.Sound
  oneFile : ∃ path, paths groups = [path]
  emptiesFirst : EmptiesFirst groups

theorem empties_first_cons (group : RunGroup) :
    EmptiesFirst (group :: groups) ↔
      (.empty ∈ groups → group.path? = none) ∧ EmptiesFirst groups := by
  rw [EmptiesFirst, List.pairwise_cons]
  refine and_congr_left' ⟨fun before behind => before .empty behind rfl, ?_⟩
  rintro before _ behind rfl
  exact before behind

theorem paths_cons (group : RunGroup) :
    paths (group :: groups) = group.path?.toList ++ paths groups := by
  cases group <;> rfl

/-- The last budget. -/
def budget? : Option Budget := (budgets groups).getLast?.bind Budget.read?

/-- The last list of inputs, or no inputs. -/
def inputs : List Word := ((lists groups).getLast?.bind readInputs?).getD []

def mode : TraceMode := if .trace ∈ groups then .steps else .off

/-- What the groups request. -/
def request : RunRequest where
  path := (paths groups).getLast?.getD []
  inputs := inputs groups
  options :=
    { trace := mode groups, maxSteps := budget? groups, verbose := decide (.verbose ∈ groups) }

end RunGroup

theorem budget_read_iff (text : Text) (budget : Budget) :
    Budget.read? text = some budget ↔ Decimal.Literal text budget.val := by
  rw [← Decimal.literal_iff, Budget.read?]
  cases Decimal.toWord? text with
  | none => simp
  | some value =>
      by_cases positive : 1 ≤ value
      · simp [positive, Subtype.ext_iff]
      · simp only [dif_neg positive, reduceCtorEq, Option.some.injEq, false_iff]
        rintro rfl
        exact positive budget.property

namespace RunRequest

/-- The request with one more group. -/
def add (request : RunRequest) : RunGroup → RunRequest
  | .trace => { request with options := { request.options with trace := .steps } }
  | .verbose => { request with options := { request.options with verbose := true } }
  | .maxSteps steps =>
      { request with options := { request.options with maxSteps := Budget.read? steps } }
  | .input list => { request with inputs := (readInputs? list).getD [] }
  | .file path => { request with path := path }
  | .empty => request

theorem add_path (request : RunRequest) (group : RunGroup) :
    (request.add group).path = group.path?.getD request.path := by
  cases group <;> rfl

/-- A request that has a file takes neither a second one nor an empty argument. -/
def Takes (request : RunRequest) (group : RunGroup) : Prop :=
  group.Sound ∧ (request.path = [] ∨ (group.path? = none ∧ group ≠ .empty))

theorem read_flag (request : RunRequest) {options : Options} {argument : Text} {rest : List Text}
    (flag : request.options.read argument rest.head? = .flag options) :
    request.read (argument :: rest) = { request with options := options }.read rest := by
  rw [read.eq_def]
  simp only [flag]

theorem read_group (request : RunRequest) (group : RunGroup) (rest : List Text)
    (takes : request.Takes group) :
    request.read (group.words ++ rest) = (request.add group).read rest := by
  obtain ⟨sound, fresh⟩ := takes
  cases group with
  | trace => exact request.read_flag (by rw [Options.read, if_pos rfl])
  | verbose => exact request.read_flag (by rw [Options.read, if_neg (by decide), if_pos rfl])
  | maxSteps steps =>
      obtain ⟨value, spelled, positive⟩ := sound
      have budget := (budget_read_iff steps ⟨value, positive⟩).mpr spelled
      change request.read (Text.ascii "--max-steps" :: steps :: rest) = _
      rw [read, Options.read, if_neg (by decide), if_neg (by decide), if_pos rfl]
      simp only [List.head?_cons, Option.bind_some, budget, add]
  | input list =>
      obtain ⟨inputs, accepted⟩ := sound
      rw [add, accepted]
      exact request.read_input rest accepted
  | file path => exact request.read_path rest sound.2 (by simpa [RunGroup.path?] using fresh)
  | empty =>
      have unset : request.path = [] := by simpa using fresh
      have same : { request with path := [] } = request := by rw [← unset]
      have plain : looksLikeOption [] = false := rfl
      exact (request.read_path rest plain unset).trans (by rw [same, add])

/-- Groups that a request takes one after the other. -/
def TakesAll (request : RunRequest) : List RunGroup → Prop
  | [] => True
  | group :: groups => request.Takes group ∧ (request.add group).TakesAll groups

theorem read_groups (request : RunRequest) (groups : List RunGroup)
    (takes : request.TakesAll groups) :
    request.read (groups.flatMap RunGroup.words) = (groups.foldl add request).complete := by
  induction groups generalizing request with
  | nil => rw [List.flatMap_nil, read, List.foldl_nil]
  | cons group groups ih =>
      rw [List.flatMap_cons, read_group request group _ takes.1, ih _ takes.2, List.foldl_cons]

theorem group_of_flag {request : RunRequest} {options : Options} {argument : Text}
    {following : Option Text} (flag : request.options.read argument following = .flag options) :
    ∃ group : RunGroup, group.words = [argument] ∧ request.Takes group ∧
      request.add group = { request with options := options } := by
  rw [Options.read] at flag
  split at flag
  · next named =>
      obtain rfl := OptionReading.flag.inj flag
      exact ⟨.trace, by rw [named]; rfl, ⟨trivial, .inr ⟨rfl, by simp⟩⟩, rfl⟩
  · split at flag
    · next named =>
        obtain rfl := OptionReading.flag.inj flag
        exact ⟨.verbose, by rw [named]; rfl, ⟨trivial, .inr ⟨rfl, by simp⟩⟩, rfl⟩
    · split at flag
      · split at flag <;> cases flag
      · cases flag

theorem group_of_valued {request : RunRequest} {options : Options} {argument : Text}
    {following : Option Text}
    (valued : request.options.read argument following = .valued options) :
    ∃ (group : RunGroup) (value : Text), following = some value ∧ group.words = [argument, value] ∧
      request.Takes group ∧ request.add group = { request with options := options } := by
  rw [Options.read] at valued
  split at valued
  · cases valued
  · split at valued
    · cases valued
    · split at valued
      · next named =>
          split at valued
          · next budget found =>
              obtain rfl := OptionReading.valued.inj valued
              obtain ⟨value, rfl, reads⟩ := Option.bind_eq_some_iff.mp found
              have spelled := (budget_read_iff value budget).mp reads
              refine ⟨.maxSteps value, value, rfl, by rw [named]; rfl,
                ⟨⟨budget.val, spelled, budget.property⟩, .inr ⟨rfl, by simp⟩⟩, ?_⟩
              rw [add, reads]
          · cases valued
      · cases valued

theorem group_of_path {request middle : RunRequest} {argument : Text}
    (taken : request.takePath argument = .ok middle) :
    ∃ group : RunGroup, group.words = [argument] ∧ request.Takes group ∧
      request.add group = middle := by
  rw [takePath] at taken
  split at taken
  · next fresh =>
      obtain rfl := Except.ok.inj taken
      by_cases named : argument = []
      · refine ⟨.empty, by rw [named]; rfl, ⟨trivial, .inl fresh.1⟩, ?_⟩
        rw [add, named, ← fresh.1]
      · exact ⟨.file argument, rfl, ⟨⟨named, fresh.2⟩, .inl fresh.1⟩, rfl⟩
  · cases taken

/-- Arguments that are read come from groups. By induction as they are read: each time the first
arguments are those of a group that the request takes. -/
theorem groups_of_read (request result : RunRequest) (arguments : List Text)
    (accepted : request.read arguments = .ok result) :
    ∃ groups : List RunGroup, arguments = groups.flatMap RunGroup.words ∧
      request.TakesAll groups := by
  have more {request : RunRequest} {group : RunGroup} {taken rest : List Text}
      (spelled : group.words = taken) (takes : request.Takes group)
      (onward : ∃ groups : List RunGroup, rest = groups.flatMap RunGroup.words ∧
        (request.add group).TakesAll groups) :
      ∃ groups : List RunGroup, taken ++ rest = groups.flatMap RunGroup.words ∧
        request.TakesAll groups := by
    obtain ⟨groups, rfl, takesAll⟩ := onward
    exact ⟨group :: groups, by rw [List.flatMap_cons, spelled], takes, takesAll⟩
  fun_induction read request arguments with
  | case1 request => exact ⟨[], rfl, trivial⟩
  | case2 request argument rest options flag ih =>
      obtain ⟨group, spelled, takes, added⟩ := group_of_flag flag
      exact more spelled takes (by rw [added]; exact ih accepted)
  | case3 request argument options valued =>
      obtain ⟨_, _, missing, -⟩ := group_of_valued valued
      cases missing
  | case4 request argument options value rest valued ih =>
      obtain ⟨group, _, following, spelled, takes, added⟩ := group_of_valued valued
      obtain rfl := Option.some.inj following
      exact more spelled takes (by rw [added]; exact ih accepted)
  | case7 request list rest inputs reads other ih =>
      have spelled : (RunGroup.input list).words = [Text.ascii "--input", list] := rfl
      have added : request.add (.input list) = { request with inputs := inputs } := by
        rw [add, reads, Option.getD_some]
      exact more spelled ⟨⟨inputs, reads⟩, .inr ⟨rfl, by simp⟩⟩ (by rw [added]; exact ih accepted)
  | case9 request argument rest other noInput middle taken ih =>
      obtain ⟨group, spelled, takes, rfl⟩ := group_of_path taken
      exact more spelled takes (ih accepted)
  | case5 | case6 | case8 | case10 => cases accepted

/-- What the groups make of any request: the last value of each kind counts, and the request keeps
what no group says anything about. -/
theorem add_all (request : RunRequest) (groups : List RunGroup) :
    groups.foldl add request =
      { path := (RunGroup.paths groups).getLast?.getD request.path
        inputs := ((RunGroup.lists groups).getLast?.map fun list =>
          (readInputs? list).getD []).getD request.inputs
        options :=
          { trace := if .trace ∈ groups then .steps else request.options.trace
            maxSteps :=
              ((RunGroup.budgets groups).getLast?.map Budget.read?).getD request.options.maxSteps
            verbose := decide (.verbose ∈ groups) || request.options.verbose } } := by
  induction groups using List.reverseRecOn with
  | nil => simp [RunGroup.paths, RunGroup.lists, RunGroup.budgets]
  | append_singleton groups group ih =>
      rw [List.foldl_append, ih, List.foldl_cons, List.foldl_nil]
      simp only [RunGroup.paths, RunGroup.lists, RunGroup.budgets, List.filterMap_append]
      cases group <;>
        simp [add, RunGroup.path?, RunGroup.list?, RunGroup.steps?]

theorem add_all_blank (groups : List RunGroup) :
    groups.foldl add .blank = RunGroup.request groups := by
  rw [add_all, RunGroup.request, RunGroup.budget?, RunGroup.inputs, RunGroup.mode]
  cases (RunGroup.lists groups).getLast? <;> cases (RunGroup.budgets groups).getLast? <;>
    simp [blank, Options.standard]

/-- By induction on the groups, from any request: a file, or an empty argument, has to find no file
before it. -/
theorem takes_all_iff (request : RunRequest) (groups : List RunGroup) :
    request.TakesAll groups ∧ (groups.foldl add request).path ≠ [] ↔
      (∀ group ∈ groups, group.Sound) ∧ RunGroup.EmptiesFirst groups ∧
        ((request.path = [] ∧ ∃ path, RunGroup.paths groups = [path]) ∨
          (request.path ≠ [] ∧ RunGroup.paths groups = [] ∧ .empty ∉ groups)) := by
  induction groups generalizing request with
  | nil => simp [TakesAll, RunGroup.EmptiesFirst, RunGroup.paths]
  | cons group groups ih =>
      rw [TakesAll, List.foldl_cons, and_assoc, ih, add_path, List.forall_mem_cons,
        RunGroup.empties_first_cons, RunGroup.paths_cons]
      cases group with
      | file path =>
          have named (sound : (RunGroup.file path).Sound) : path ≠ [] := sound.1
          simp [Takes, RunGroup.path?]
          tauto
      | empty =>
          simp [Takes, RunGroup.path?]
          tauto
      | trace | verbose | maxSteps steps | input list =>
          simp [Takes, RunGroup.path?]
          exact and_assoc.symm

theorem read_iff (arguments : List Text) (result : RunRequest) :
    blank.read arguments = .ok result ↔
      ∃ groups : List RunGroup, arguments = groups.flatMap RunGroup.words ∧
        RunGroup.Requests groups ∧ result = RunGroup.request groups := by
  have requests_iff (groups : List RunGroup) : RunGroup.Requests groups ↔
      blank.TakesAll groups ∧ (groups.foldl add blank).path ≠ [] := by
    rw [takes_all_iff]
    constructor
    · rintro ⟨sound, oneFile, emptiesFirst⟩
      exact ⟨sound, emptiesFirst, .inl ⟨rfl, oneFile⟩⟩
    · rintro ⟨sound, emptiesFirst, ⟨-, oneFile⟩ | ⟨named, -⟩⟩
      · exact ⟨sound, oneFile, emptiesFirst⟩
      · exact absurd rfl named
  constructor
  · intro accepted
    obtain ⟨groups, rfl, takes⟩ := groups_of_read blank result arguments accepted
    rw [read_groups blank groups takes, complete] at accepted
    split at accepted
    · cases accepted
    · next named =>
        obtain rfl := Except.ok.inj accepted
        exact ⟨groups, rfl, (requests_iff groups).mpr ⟨takes, named⟩, add_all_blank groups⟩
  · rintro ⟨groups, rfl, requests, rfl⟩
    obtain ⟨takes, named⟩ := (requests_iff groups).mp requests
    rw [read_groups blank groups takes, complete, if_neg named, add_all_blank]

end RunRequest

namespace RunGroup

/-- The same groups in another order, with the empty arguments before the file and the values of a
repeated option as they were. -/
structure Reordered (groups others : List RunGroup) : Prop where
  same : groups.Perm others
  emptiesFirst : EmptiesFirst others
  budgets : budgets groups = budgets others
  lists : lists groups = lists others

theorem Reordered.requests {groups others : List RunGroup} (reordered : Reordered groups others)
    (requests : Requests groups) : Requests others ∧ request others = request groups := by
  obtain ⟨same, emptiesFirst, budgets, lists⟩ := reordered
  obtain ⟨path, one⟩ := requests.oneFile
  have alike : paths others = [path] := by
    have perm : (paths groups).Perm (paths others) := same.filterMap path?
    rw [one] at perm
    exact (List.singleton_perm.mp perm).symm
  refine ⟨⟨fun group known => requests.sound group (same.mem_iff.mpr known), ⟨path, alike⟩,
    emptiesFirst⟩, ?_⟩
  simp only [request, inputs, budget?, mode, one, alike, budgets, lists, same.mem_iff]

end RunGroup

end StackMachine.Command

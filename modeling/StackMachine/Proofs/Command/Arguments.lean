import StackMachine.Command.Tool
import StackMachine.Proofs.Assembly.Words
import StackMachine.Proofs.Listing
import StackMachine.Proofs.Word

/-!
# Arguments read back

A written list of inputs has no blanks, and a comma only between its words, so splitting and
trimming return the words. From there each command reads its arguments as the request they spell.
-/

namespace StackMachine

set_option autoImplicit false

namespace Text

theorem forall_mem_join {separator : Text} {pieces : List Text} {holds : UInt8 → Prop}
    (between : ∀ byte ∈ separator, holds byte)
    (within : ∀ piece ∈ pieces, ∀ byte ∈ piece, holds byte) :
    ∀ byte ∈ join separator pieces, holds byte := by
  induction pieces with
  | nil => simp [join]
  | cons piece others ih =>
      have first := within piece (by simp)
      have rest := ih fun other member => within other (List.mem_cons_of_mem _ member)
      cases others with
      | nil => simpa [join] using first
      | cons next others =>
          have shape : join separator (piece :: next :: others) =
              piece ++ (separator ++ join separator (next :: others)) := by
            simp [join]
          intro byte member
          rw [shape, List.mem_append, List.mem_append] at member
          rcases member with inside | separating | later
          · exact first byte inside
          · exact between byte separating
          · exact rest byte later

theorem join_ne_nil (separator piece : Text) (others : List Text) (nonempty : piece ≠ []) :
    join separator (piece :: others) ≠ [] := by
  cases others <;> simp [join, nonempty]

theorem split_join (separator : UInt8) (pieces : List Text) (nonempty : pieces ≠ [])
    (clean : ∀ piece ∈ pieces, separator ∉ piece) :
    split separator (join [separator] pieces) = pieces := by
  have pieced : split separator (join [separator] pieces) =
      (join [separator] pieces).splitOn separator :=
    Assembly.split_from_prepend separator [] _
  rw [pieced]
  exact List.splitOn_intercalate separator clean nonempty

theorem drop_solid (text : Text) (solid : ∀ byte ∈ text, isSpace byte = false) :
    text.dropWhile isSpace = text := by
  cases text with
  | nil => rfl
  | cons byte rest => exact List.dropWhile_cons_of_neg (by simp [solid byte])

theorem trim_solid (text : Text) (solid : ∀ byte ∈ text, isSpace byte = false) :
    trim text = text := by
  have reversed : ∀ byte ∈ text.reverse, isSpace byte = false :=
    fun byte member => solid byte (List.mem_reverse.mp member)
  rw [trim, drop_solid text solid, drop_solid _ reversed, List.reverse_reverse]

end Text

namespace Command

def inputText (inputs : List Word) : Text :=
  Text.join "," (inputs.map fun word => Decimal.ofInt word.toInt)

theorem comma_not_mem_decimal (number : Int) : comma ∉ Decimal.ofInt number :=
  fun member => absurd (Decimal.of_int_bytes number comma member) (by decide)

theorem input_text_bytes (inputs : List Word) :
    ∀ byte ∈ inputText inputs, Text.isDigit byte = true ∨ byte = 45 ∨ byte = comma := by
  refine Text.forall_mem_join (fun byte between => .inr (.inr ?_)) fun piece known byte member => ?_
  · exact List.mem_singleton.mp between
  · obtain ⟨word, -, rfl⟩ := List.mem_map.mp known
    exact (Decimal.of_int_bytes word.toInt byte member).imp_right .inl

theorem input_text_solid (inputs : List Word) :
    ∀ byte ∈ inputText inputs, Text.isSpace byte = false := by
  refine Text.forall_mem_join (fun byte between => ?_) fun piece known byte member => ?_
  · rw [List.mem_singleton.mp between]
    rfl
  · obtain ⟨word, -, rfl⟩ := List.mem_map.mp known
    exact ((Assembly.plain_of_int word.toInt).bytes byte member).1

theorem read_piece (word : Word) :
    Decimal.toWord? (Text.trim (Decimal.ofInt word.toInt)) = some word := by
  have solid : ∀ byte ∈ Decimal.ofInt word.toInt, Text.isSpace byte = false :=
    fun byte member => ((Assembly.plain_of_int word.toInt).bytes byte member).1
  rw [Text.trim_solid _ solid, Decimal.to_word_of_int]

/-- No words are written as the empty text, which reads as no words again. -/
theorem read_input_text (inputs : List Word) : readInputs? (inputText inputs) = some inputs := by
  cases inputs with
  | nil => rfl
  | cons word others =>
      have nonempty : inputText (word :: others) ≠ [] :=
        Text.join_ne_nil _ _ _ (Assembly.plain_of_int word.toInt).nonempty
      have pieces : Text.split comma (inputText (word :: others)) =
          (word :: others).map fun word => Decimal.ofInt word.toInt := by
        refine Text.split_join comma _ (by simp) fun piece known => ?_
        obtain ⟨other, -, rfl⟩ := List.mem_map.mp known
        exact comma_not_mem_decimal other.toInt
      have reads : (fun word : Word => Decimal.toWord? (Text.trim (Decimal.ofInt word.toInt))) =
          fun word => pure word :=
        funext read_piece
      rw [readInputs?, Text.trim_solid _ (input_text_solid _), if_neg nonempty, pieces,
        List.mapM_map]
      change List.mapM (fun word : Word => Decimal.toWord? (Text.trim (Decimal.ofInt word.toInt)))
        (word :: others) = _
      rw [reads, List.mapM_pure, List.map_id']
      rfl

theorem input_text_injective (left right : List Word) (same : inputText left = inputText right) :
    left = right := by
  have read := read_input_text left
  rw [same, read_input_text right] at read
  exact (Option.some.inj read).symm

theorem read_other (options : Options) (argument : Text) (following : Option Text)
    (plain : looksLikeOption argument = false) : options.read argument following = .other := by
  have differs (name : Text) (option : looksLikeOption name = true) : argument ≠ name := by
    rintro rfl
    rw [plain] at option
    cases option
  rw [Options.read, if_neg (differs _ (by decide)), if_neg (differs _ (by decide)),
    if_neg (differs _ (by decide))]

theorem RunRequest.read_path (request : RunRequest) {path : Text} (rest : List Text)
    (plain : looksLikeOption path = false) (unset : request.path = []) :
    request.read (path :: rest) = { request with path := path }.read rest := by
  have noInput : path ≠ Text.ascii "--input" := by
    rintro rfl
    cases plain
  rw [read.eq_def]
  simp only [read_other _ _ _ plain, if_neg noInput, takePath, if_pos (And.intro unset plain)]

theorem RunRequest.read_input (request : RunRequest) {list : Text} {inputs : List Word}
    (rest : List Text) (accepted : readInputs? list = some inputs) :
    request.read (Text.ascii "--input" :: list :: rest) =
      { request with inputs := inputs }.read rest := by
  have other (following : Option Text) :
      request.options.read (Text.ascii "--input") following = .other := rfl
  rw [read, other]
  simp only [if_true, accepted]

def runArguments (path : Text) (list : Text) : List Text := [path, "--input", list]

theorem read_run_arguments (path : Text) (inputs : List Word) (named : path ≠ [])
    (plain : looksLikeOption path = false) :
    RunRequest.blank.read (runArguments path (inputText inputs)) =
      .ok ⟨path, inputs, .standard⟩ := by
  rw [runArguments, RunRequest.read_path _ _ plain rfl,
    RunRequest.read_input _ _ (read_input_text inputs), RunRequest.read, RunRequest.complete,
    if_neg named]
  rfl

theorem to_word_of_nat (number : Nat) (small : number < 9223372036854775808) :
    Decimal.toWord? (Decimal.ofNat number) = some (Int64.ofNat number) := by
  have least : Int64.minValue.toInt = -9223372036854775808 := rfl
  have greatest : Int64.maxValue.toInt = 9223372036854775807 := rfl
  rw [Decimal.toWord?, Decimal.to_int_of_nat, Option.bind_some, least, greatest,
    if_pos ⟨by omega, by omega⟩, Int64.ofInt_eq_ofNat]

theorem read_seed (seed : Nat) (small : seed < 9223372036854775808) :
    readSeed? (Decimal.ofNat seed) = some (UInt64.ofNat seed) := by
  have positive : 0 ≤ Int64.ofNat seed := by
    rw [Int64.le_iff_toInt_le, Word.of_nat_to_int seed small]
    exact Int.natCast_nonneg seed
  simp only [readSeed?, to_word_of_nat seed small, if_pos positive]
  rfl

theorem read_template (level : Nat) (least : 1 ≤ level) (greatest : level ≤ 5) :
    readTemplate? (Decimal.ofNat level) = some (.ofDifficulty level) := by
  have value := Word.of_nat_to_int level (by omega)
  have within : Sample.Template.minDifficulty ≤ (level : Int) ∧
      (level : Int) ≤ Sample.Template.maxDifficulty := by
    rw [Sample.Template.minDifficulty, Sample.Template.maxDifficulty]
    omega
  simp only [readTemplate?, to_word_of_nat level (by omega), value, if_pos within]

def sampleArguments (seed : Nat) (difficulty : Option Nat) : List Text :=
  let template : List Text :=
    match difficulty with
    | some level => [Text.ascii "--template", Decimal.ofNat level]
    | none => []
  [Text.ascii "--seed", Decimal.ofNat seed] ++ template ++ [Text.ascii "--queries"]

def sampleRequest (seed : Nat) (difficulty : Option Nat) : SampleRequest :=
  ⟨some (UInt64.ofNat seed), difficulty.map fun level => .ofDifficulty level, true⟩

theorem read_seed_argument (request : SampleRequest) (seed : Nat) (rest : List Text)
    (small : seed < 9223372036854775808) :
    request.read (Text.ascii "--seed" :: Decimal.ofNat seed :: rest) =
      { request with seed := some (UInt64.ofNat seed) }.read rest := by
  have noQueries : Text.ascii "--seed" ≠ Text.ascii "--queries" := by decide
  rw [SampleRequest.read, if_neg noQueries]
  simp only [if_true, read_seed seed small]

theorem read_template_argument (request : SampleRequest) (level : Nat) (rest : List Text)
    (least : 1 ≤ level) (greatest : level ≤ 5) :
    request.read (Text.ascii "--template" :: Decimal.ofNat level :: rest) =
      { request with template := some (.ofDifficulty level) }.read rest := by
  have noQueries : Text.ascii "--template" ≠ Text.ascii "--queries" := by decide
  have noSeed : Text.ascii "--template" ≠ Text.ascii "--seed" := by decide
  rw [SampleRequest.read, if_neg noQueries]
  simp only [if_neg noSeed, if_true, read_template level least greatest]

theorem read_queries_argument (request : SampleRequest) :
    request.read [Text.ascii "--queries"] = .ok { request with withQueries := true } := by
  rw [SampleRequest.read, if_pos rfl, SampleRequest.read]

theorem read_sample_arguments (seed : Nat) (difficulty : Option Nat)
    (small : seed < 9223372036854775808)
    (levels : ∀ level ∈ difficulty, 1 ≤ level ∧ level ≤ 5) :
    SampleRequest.blank.read (sampleArguments seed difficulty) =
      .ok (sampleRequest seed difficulty) := by
  cases difficulty with
  | none =>
      change SampleRequest.blank.read (_ :: _ :: [Text.ascii "--queries"]) = _
      rw [read_seed_argument _ seed _ small, read_queries_argument]
      rfl
  | some level =>
      obtain ⟨least, greatest⟩ := levels level rfl
      change SampleRequest.blank.read (_ :: _ :: _ :: _ :: [Text.ascii "--queries"]) = _
      rw [read_seed_argument _ seed _ small, read_template_argument _ level _ least greatest,
        read_queries_argument]
      rfl

end Command

end StackMachine

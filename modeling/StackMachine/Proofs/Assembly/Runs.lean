import Mathlib.Algebra.Group.Nat.Defs
import StackMachine.Proofs.Assembly.Columns
import StackMachine.Proofs.Text.Cursor

/-!
# All words of a line

The tokens of a line are the longest runs of bytes that are no white space, in what stands before
the comment: all of them, in the order of their positions, with white space between any two. Three
loops over positions find the same ones, with columns of 32 bits.
-/

namespace StackMachine.Assembly

set_option autoImplicit false

def isSolid (byte : UInt8) : Bool := !Text.isSpace byte

/-- A byte that is no white space stands there. -/
def Solid (text : Text) (position : Nat) : Prop :=
  ∃ byte ∈ text[position]?, isSolid byte = true

/-- The bytes from `start` up to `stop` are no white space, and on neither side does such a byte
follow. -/
structure MaximalRun (text : Text) (start stop : Nat) : Prop where
  nonempty : start < stop
  solid : ∀ position, start ≤ position → position < stop → Solid text position
  opened : start = 0 ∨ ¬Solid text (start - 1)
  closed : ¬Solid text stop

section

variable (body : Text)

theorem solid_of_seek {position : Nat}
    (inside : Text.seek Text.isSpace body position < body.length) :
    Solid body (Text.seek Text.isSpace body position) := by
  have found := List.getElem?_eq_getElem inside
  have stops := Text.seek_stops Text.isSpace body position _ found
  exact ⟨_, found, by rw [isSolid, stops]; rfl⟩

theorem shorter_behind {position : Nat}
    (inside : Text.seek Text.isSpace body position < body.length) :
    body.length - Text.seek isSolid body (Text.seek Text.isSpace body position) <
      body.length - position := by
  have skipped := Text.le_seek Text.isSpace body position
  have passed := Text.lt_seek isSolid body _ (solid_of_seek body inside)
  omega

/-- Where the words from a position on start and stop: the first loop skips white space, the second
one goes to the end of the word. -/
def spans (position : Nat) : List (Nat × Nat) :=
  if position < body.length then
    let start := Text.seek Text.isSpace body position
    if inside : start < body.length then
      let stop := Text.seek isSolid body start
      have : body.length - stop < body.length - position := shorter_behind body inside
      (start, stop) :: spans stop
    else []
  else []
termination_by body.length - position

end

variable {body : Text}

theorem Solid.inside {position : Nat} (solid : Solid body position) : position < body.length := by
  obtain ⟨byte, found, -⟩ := solid
  exact (List.getElem?_eq_some_iff.mp found).1

theorem blank_before {position other : Nat} (behind : position ≤ other)
    (before : other < Text.seek Text.isSpace body position) : ¬Solid body other := by
  obtain ⟨byte, found, blank⟩ := Text.seek_passes Text.isSpace body position other behind before
  rintro ⟨same, foundSame, solid⟩
  rw [Option.mem_unique foundSame found, isSolid, blank] at solid
  cases solid

theorem blank_at_stop (start : Nat) : ¬Solid body (Text.seek isSolid body start) := by
  rintro ⟨byte, found, solid⟩
  rw [Text.seek_stops isSolid body start byte found] at solid
  cases solid

/-- Two runs that start at one place are one run. -/
theorem MaximalRun.same_stop {start stop other : Nat} (run : MaximalRun body start stop)
    (also : MaximalRun body start other) : stop = other := by
  rcases Nat.lt_trichotomy stop other with before | same | behind
  · exact absurd (also.solid stop (Nat.le_of_lt run.nonempty) before) run.closed
  · exact same
  · exact absurd (run.solid other (Nat.le_of_lt also.nonempty) behind) also.closed

theorem MaximalRun.behind {start stop later last : Nat} (run : MaximalRun body start stop)
    (next : MaximalRun body later last) (order : start < later) : stop < later := by
  refine Nat.lt_of_not_le fun inside => ?_
  rcases next.opened with first | blank
  · omega
  · exact blank (run.solid (later - 1) (by omega) (by omega))

/-- What the two loops pass is a run, unless the first one was started inside a word. -/
theorem run_of_loops {position : Nat} (fresh : position = 0 ∨ ¬Solid body position)
    (inside : Text.seek Text.isSpace body position < body.length) :
    MaximalRun body (Text.seek Text.isSpace body position)
      (Text.seek isSolid body (Text.seek Text.isSpace body position)) where
  nonempty := Text.lt_seek _ _ _ (solid_of_seek body inside)
  solid := Text.seek_passes isSolid body _
  opened := by
    have order := Text.le_seek Text.isSpace body position
    rcases Nat.eq_or_lt_of_le order with same | further
    · rcases fresh with zero | blank
      · rw [← same]
        exact .inl zero
      · rw [same] at blank
        exact absurd (solid_of_seek body inside) blank
    · have last := Nat.le_sub_one_of_lt further
      exact .inr (blank_before last (Nat.sub_one_lt_of_lt further))
  closed := blank_at_stop _

/-- A run behind the position is not in front of the place where the first loop stops. -/
theorem seek_le_start {position start stop : Nat} (run : MaximalRun body start stop)
    (behind : position ≤ start) : Text.seek Text.isSpace body position ≤ start := by
  refine Nat.le_of_not_lt fun before => ?_
  exact blank_before behind before (run.solid start (Nat.le_refl start) run.nonempty)

theorem start_inside {start stop : Nat} (run : MaximalRun body start stop) :
    start < body.length :=
  (run.solid start (Nat.le_refl start) run.nonempty).inside

/-- By induction as the loops run: the runs behind the position are the first one and those behind
its end. -/
theorem mem_spans_iff (position start stop : Nat) (fresh : position = 0 ∨ ¬Solid body position) :
    (start, stop) ∈ spans body position ↔ position ≤ start ∧ MaximalRun body start stop := by
  fun_induction spans body position with
  | case1 position inBody first inside last shorter ih =>
      have here : MaximalRun body first last := run_of_loops fresh inside
      have skipped : position ≤ first := Text.le_seek Text.isSpace body position
      rw [List.mem_cons, ih (.inr here.closed), Prod.mk.injEq]
      constructor
      · rintro (⟨rfl, rfl⟩ | ⟨behind, run⟩)
        · exact ⟨skipped, here⟩
        · have passed := here.nonempty
          exact ⟨by omega, run⟩
      · rintro ⟨behind, run⟩
        rcases Nat.eq_or_lt_of_le (seek_le_start run behind) with same | further
        · subst same
          exact .inl ⟨rfl, run.same_stop here⟩
        · exact .inr ⟨Nat.le_of_lt (here.behind run further), run⟩
  | case2 position inBody first outside =>
      simp only [List.not_mem_nil, false_iff, not_and]
      intro behind run
      exact outside (Nat.lt_of_le_of_lt (seek_le_start run behind) (start_inside run))
  | case3 position outside =>
      simp only [List.not_mem_nil, false_iff, not_and]
      intro behind run
      exact outside (Nat.lt_of_le_of_lt behind (start_inside run))

theorem mem_spans_all_iff (start stop : Nat) :
    (start, stop) ∈ spans body 0 ↔ MaximalRun body start stop := by
  rw [mem_spans_iff 0 start stop (.inl rfl)]
  exact and_iff_right (Nat.zero_le start)

/-- Between two runs there is the byte behind the first one. -/
theorem spans_ordered (position : Nat) :
    (spans body position).Pairwise fun earlier later => earlier.2 < later.1 := by
  fun_induction spans body position with
  | case1 position inBody first inside last shorter ih =>
      have closed : ¬Solid body last := blank_at_stop _
      refine List.pairwise_cons.mpr ⟨fun later member => ?_, ih⟩
      obtain ⟨behind, run⟩ := (mem_spans_iff last later.1 later.2 (.inr closed)).mp member
      refine Nat.lt_of_le_of_ne behind fun same => closed ?_
      change last = later.1 at same
      rw [same]
      exact run.solid later.1 (Nat.le_refl _) run.nonempty
  | case2 | case3 => exact .nil

theorem covered (position other : Nat) (behind : position ≤ other) (solid : Solid body other) :
    ∃ span ∈ spans body position, span.1 ≤ other ∧ other < span.2 := by
  fun_induction spans body position with
  | case1 position inBody first inside last shorter ih =>
      have reached : first ≤ other :=
        Nat.le_of_not_lt fun before => blank_before behind before solid
      by_cases within : other < last
      · exact ⟨(first, last), by simp, reached, within⟩
      · obtain ⟨span, member, place⟩ := ih (Nat.le_of_not_lt within)
        exact ⟨span, List.mem_cons_of_mem _ member, place⟩
  | case2 position inBody first outside =>
      have reached : first ≤ other :=
        Nat.le_of_not_lt fun before => blank_before behind before solid
      exact absurd (Nat.lt_of_le_of_lt reached solid.inside) outside
  | case3 position outside => exact absurd (Nat.lt_of_le_of_lt behind solid.inside) outside

def Token.cut (body : Text) (span : Nat × Nat) : Token :=
  ⟨Text.slice body span.1 span.2, span.1 + 1⟩

theorem scan_blank (column : Nat) (blanks rest : Text)
    (blank : ∀ byte ∈ blanks, Text.isSpace byte = true) :
    Token.scan column [] (blanks ++ rest) = Token.scan (column + blanks.length) [] rest := by
  induction blanks generalizing column with
  | nil => rfl
  | cons byte blanks ih =>
      rw [List.forall_mem_cons] at blank
      have count : column + (blanks.length + 1) = column + 1 + blanks.length := by omega
      rw [List.cons_append, Token.scan, if_pos blank.1, ih (column + 1) blank.2, List.length_cons,
        count]
      rfl

theorem scan_ended (column : Nat) (pending rest : Text)
    (ended : ∀ byte ∈ rest.head?, Text.isSpace byte = true) :
    Token.scan column pending rest =
      Token.ending column pending ++ Token.scan column [] rest := by
  cases rest with
  | nil => simp [Token.scan, Token.ending]
  | cons byte rest =>
      have blank := ended byte rfl
      simp [Token.scan, blank, Token.ending]

theorem scan_skips (position : Nat) (within : position ≤ body.length) :
    Token.scan (position + 1) [] (body.drop position) =
      Token.scan (Text.seek Text.isSpace body position + 1) []
        (body.drop (Text.seek Text.isSpace body position)) := by
  have blank : ∀ byte ∈ Text.slice body position (Text.seek Text.isSpace body position),
      Text.isSpace byte = true := by
    rw [Text.slice_seek]
    exact fun byte member => List.mem_takeWhile_imp member
  have skipped := Text.le_seek Text.isSpace body position
  have reached := Text.seek_le Text.isSpace body position within
  generalize Text.seek Text.isSpace body position = first at *
  have count : position + 1 + (first - position) = first + 1 := by omega
  rw [← Text.slice_append_drop body position first skipped, scan_blank _ _ _ blank,
    Text.length_slice body position first reached, count]

theorem scan_takes (start : Nat) (solid : Solid body start) :
    Token.scan (start + 1) [] (body.drop start) =
      Token.cut body (start, Text.seek isSolid body start) ::
        Token.scan (Text.seek isSolid body start + 1) []
          (body.drop (Text.seek isSolid body start)) := by
  have word : ∀ byte ∈ Text.slice body start (Text.seek isSolid body start),
      Text.isSpace byte = false := by
    rw [Text.slice_seek]
    intro byte member
    simpa [isSolid] using List.mem_takeWhile_imp member
  have ended : ∀ byte ∈ (body.drop (Text.seek isSolid body start)).head?,
      Text.isSpace byte = true := by
    rw [List.head?_drop]
    intro byte found
    simpa [isSolid] using Text.seek_stops isSolid body start byte found
  have passed : start < Text.seek isSolid body start := Text.lt_seek isSolid body start solid
  have reached := Text.seek_le isSolid body start (Nat.le_of_lt solid.inside)
  generalize Text.seek isSolid body start = stop at *
  have size := Text.length_slice body start stop reached
  have some_byte : Text.slice body start stop ≠ [] := by
    apply List.ne_nil_of_length_pos
    omega
  have count : start + 1 + (Text.slice body start stop).length = stop + 1 := by omega
  rw [← Text.slice_append_drop body start stop (Nat.le_of_lt passed), scan_word _ _ _ _ word,
    List.append_nil, scan_ended _ _ _ ended, ending_word _ _ some_byte, count]
  rfl

theorem scan_as_spans (position : Nat) (within : position ≤ body.length) :
    Token.scan (position + 1) [] (body.drop position) =
      (spans body position).map (Token.cut body) := by
  fun_induction spans body position with
  | case1 position inBody first inside last shorter ih =>
      have reached : last ≤ body.length := Text.seek_le _ _ _ (Nat.le_of_lt inside)
      rw [scan_skips position within, scan_takes first (solid_of_seek body inside),
        ih reached, List.map_cons]
  | case2 position inBody first outside =>
      rw [scan_skips position within, List.drop_of_length_le (Nat.le_of_not_lt outside)]
      rfl
  | case3 position outside =>
      rw [List.drop_of_length_le (Nat.le_of_not_lt outside)]
      rfl

/-- The offset of the first byte. -/
def Token.start (token : Token) : Nat := token.column - 1

/-- The offset behind the last byte. -/
def Token.stop (token : Token) : Nat := token.start + token.text.length

theorem tokens_are_cut (line : Text) :
    tokenize line = (spans (stripComment line) 0).map (Token.cut (stripComment line)) :=
  scan_as_spans 0 (Nat.zero_le _)

theorem MaximalRun.stop_le {start stop : Nat} (run : MaximalRun body start stop) :
    stop ≤ body.length := by
  have last := run.solid (stop - 1) (Nat.le_sub_one_of_lt run.nonempty)
    (Nat.sub_one_lt_of_lt run.nonempty)
  exact Nat.le_of_pred_lt last.inside

theorem cut_stop {span : Nat × Nat} (run : MaximalRun body span.1 span.2) :
    (Token.cut body span).stop = span.2 := by
  have order := run.nonempty
  have size := Text.length_slice body span.1 span.2 run.stop_le
  simp only [Token.stop, Token.start, Token.cut, size]
  omega

theorem token_iff (line : Text) (start stop : Nat) :
    (∃ token ∈ tokenize line, token.start = start ∧ token.stop = stop) ↔
      MaximalRun (stripComment line) start stop := by
  rw [tokens_are_cut]
  constructor
  · rintro ⟨token, member, rfl, rfl⟩
    obtain ⟨span, known, rfl⟩ := List.mem_map.mp member
    have run := (mem_spans_all_iff span.1 span.2).mp known
    rwa [cut_stop run]
  · intro run
    have known := (mem_spans_all_iff start stop).mpr run
    exact ⟨_, List.mem_map_of_mem known, rfl, cut_stop run⟩

theorem comment_stripped (line : Text) :
    ∃ comment, line = stripComment line ++ comment ∧ hash ∉ stripComment line ∧
      (comment = [] ∨ comment.head? = some hash) := by
  refine ⟨line.dropWhile fun byte => byte ≠ hash, ?_, ?_, ?_⟩
  · exact List.takeWhile_append_dropWhile.symm
  · intro member
    simpa using List.mem_takeWhile_imp member
  · have stops := List.head?_dropWhile_not (fun byte : UInt8 => decide (byte ≠ hash)) line
    cases comment : line.dropWhile fun byte => decide (byte ≠ hash) with
    | nil => exact .inl rfl
    | cons byte rest =>
        rw [comment] at stops
        exact .inr (by simpa using stops)

theorem byte_of_body {text : Text} {position : Nat}
    (inside : position < (stripComment text).length) :
    text[position]? = (stripComment text)[position]? := by
  obtain ⟨comment, whole, -⟩ := comment_stripped text
  have front : (stripComment text ++ comment)[position]? = (stripComment text)[position]? :=
    List.getElem?_append_left inside
  rwa [← whole] at front

theorem tokens_apart (text : Text) :
    (tokenize text).Pairwise fun earlier later =>
      earlier.stop < later.start ∧ ∃ byte ∈ text[earlier.stop]?, Text.isSpace byte = true := by
  rw [tokens_are_cut, List.pairwise_map]
  refine (spans_ordered 0).imp_of_mem fun {first second} known also order => ?_
  have run := (mem_spans_all_iff first.1 first.2).mp known
  have next := (mem_spans_all_iff second.1 second.2).mp also
  have inside : first.2 < (stripComment text).length := Nat.lt_trans order (start_inside next)
  rw [cut_stop run]
  refine ⟨order, (stripComment text)[first.2], ?_, ?_⟩
  · rw [byte_of_body inside]
    exact List.getElem?_eq_getElem inside
  · have found := List.getElem?_eq_getElem inside
    simpa [isSolid] using fun blank => run.closed ⟨_, found, blank⟩

theorem MaximalRun.same {start stop other last : Nat} (run : MaximalRun body start stop)
    (also : MaximalRun body other last) {position : Nat} (after : start ≤ position)
    (before : position < stop) (afterAlso : other ≤ position) (beforeAlso : position < last) :
    start = other ∧ stop = last := by
  have same : start = other := by
    rcases Nat.lt_trichotomy start other with first | same | second
    · have apart := run.behind also first
      omega
    · exact same
    · have apart := also.behind run second
      omega
  subst same
  exact ⟨rfl, run.same_stop also⟩

theorem token_once (line : Text) (position : Nat) (solid : Solid (stripComment line) position) :
    ∃! token, token ∈ tokenize line ∧ token.start ≤ position ∧ position < token.stop := by
  obtain ⟨span, known, after, before⟩ := covered 0 position (Nat.zero_le position) solid
  have run := (mem_spans_all_iff span.1 span.2).mp known
  rw [tokens_are_cut]
  refine ⟨Token.cut _ span, ⟨List.mem_map_of_mem known, after, by rwa [cut_stop run]⟩, ?_⟩
  rintro token ⟨member, afterAlso, beforeAlso⟩
  obtain ⟨other, also, rfl⟩ := List.mem_map.mp member
  have next := (mem_spans_all_iff other.1 other.2).mp also
  rw [cut_stop next] at beforeAlso
  obtain ⟨first, second⟩ := run.same next after before afterAlso beforeAlso
  rw [Prod.ext first second]

theorem token_bytes {line : Text} {token : Token} (member : token ∈ tokenize line) :
    1 ≤ token.column ∧ (line.drop (token.column - 1)).take token.text.length = token.text := by
  obtain ⟨before, after, shape, counted, -⟩ := token_placed member
  have offset : token.column - 1 = before.length := by omega
  refine ⟨by omega, ?_⟩
  rw [offset, shape, List.append_assoc, List.drop_left, List.take_left]

/-- The tokens that the loops find in front of the first hash, with columns cut to 32 bits. -/
def loopTokens (line : Text) : List (Text × UInt32) :=
  let body := Text.slice line 0 (Text.seek (fun byte => byte ≠ hash) line 0)
  (spans body 0).map fun span => (Text.slice body span.1 span.2, UInt32.ofNat (span.1 + 1))

theorem body_of_loop (line : Text) :
    Text.slice line 0 (Text.seek (fun byte => byte ≠ hash) line 0) = stripComment line := by
  rw [Text.slice_seek, List.drop_zero, stripComment]

theorem loop_tokens_uncut (line : Text) (short : line.length < 2 ^ 32) :
    (loopTokens line).map (fun token => ⟨token.1, token.2.toNat⟩) = tokenize line := by
  have size : (stripComment line).length ≤ line.length := (List.takeWhile_prefix _).length_le
  rw [loopTokens, body_of_loop, tokens_are_cut, List.map_map]
  refine List.map_congr_left fun span known => ?_
  have inside := start_inside ((mem_spans_all_iff span.1 span.2).mp known)
  have fits : span.1 + 1 < UInt32.size := by
    change span.1 + 1 < 2 ^ 32
    omega
  simp only [Function.comp_apply, UInt32.toNat_ofNat_of_lt' fits, Token.cut]

/-- What the tokens of a line are. -/
structure ListsRuns (text : Text) (tokens : List Token) : Prop where
  body : ∃ comment, text = stripComment text ++ comment ∧ hash ∉ stripComment text ∧
    (comment = [] ∨ comment.head? = some hash)
  runs (start stop : Nat) : (∃ token ∈ tokens, token.start = start ∧ token.stop = stop) ↔
    MaximalRun (stripComment text) start stop
  bytes : ∀ token ∈ tokens,
    1 ≤ token.column ∧ (text.drop (token.column - 1)).take token.text.length = token.text
  plain : ∀ token ∈ tokens, ∀ byte ∈ token.text, Text.isSpace byte = false ∧ byte ≠ hash
  apart : tokens.Pairwise fun earlier later =>
    earlier.stop < later.start ∧ ∃ byte ∈ text[earlier.stop]?, Text.isSpace byte = true
  once (position : Nat) : Solid (stripComment text) position →
    ∃! token, token ∈ tokens ∧ token.start ≤ position ∧ position < token.stop

/-- The tokens are the longest runs without white space before the comment, each with its bytes and
its column, and the loops find the same ones. -/
theorem tokens_are_runs (line : Text) (short : line.length < 2 ^ 32) :
    ListsRuns line (tokenize line) ∧
      (loopTokens line).map (fun token => ⟨token.1, token.2.toNat⟩) = tokenize line := by
  refine ⟨?_, loop_tokens_uncut line short⟩
  exact
    { body := comment_stripped line
      runs := token_iff line
      bytes := fun token member => token_bytes member
      plain := fun token member => by
        obtain ⟨_, _, -, -, plain, -⟩ := token_placed member
        exact plain.bytes
      apart := tokens_apart line
      once := token_once line }

def indentedJump : Text := "\tjump  +07#1"

/-- A tab takes one column, and the hash ends the last word. -/
theorem tokens_are_runs_indented :
    indentedJump.length < 2 ^ 32 ∧ MaximalRun (stripComment indentedJump) 7 10 ∧
      (∃! token, token ∈ tokenize indentedJump ∧ token.start ≤ 8 ∧ 8 < token.stop) ∧
      (loopTokens indentedJump).map (fun token => Token.mk token.1 token.2.toNat) =
        [⟨"jump", 2⟩, ⟨"+07", 8⟩] := by
  have short : indentedJump.length < 2 ^ 32 := by decide
  obtain ⟨lists, loops⟩ := tokens_are_runs indentedJump short
  have solid : Solid (stripComment indentedJump) 8 := ⟨48, by decide, by decide⟩
  exact ⟨short, (lists.runs 7 10).mp ⟨⟨"+07", 8⟩, by decide, rfl, rfl⟩, lists.once 8 solid,
    loops.trans (by decide)⟩

end StackMachine.Assembly

import StackMachine.Proofs.Assembly.Comments
import StackMachine.Proofs.Command.Arguments

/-!
# The printed sample

What a sample prints are the lines of the listing between comment lines, so its text is a program
file. A query line can be taken apart in one way only, since its brackets enclose the list and occur
nowhere else.
-/

namespace StackMachine.Command

set_option autoImplicit false

open StackMachine.Sample

/-- A line that tells of a query. -/
def queryRow (tag list answer : Text) : Text :=
  "# query " ++ tag ++ " [" ++ list ++ "] -> " ++ answer

/-- The number of a status and a value. -/
def answerText (result : Result) : Text :=
  Decimal.ofNat result.status.code ++ "," ++ Decimal.ofInt result.value.toInt

def rowOf (query : Query) : Text :=
  queryRow query.tag.name (inputText query.input) (answerText query.output)

def seedRow (seed : Nat) : Text := "# seed " ++ Decimal.ofNat seed

def printedRows (seed : Nat) (program : Program) (queries : List Query) : List Text :=
  seedRow seed :: (Assembly.listingLines program ++ queries.map rowOf)

/-- What a sample prints. -/
def printed (seed : UInt64) (program : Program) (queries : List Query) : Text :=
  SampleRequest.seedLine seed ++ Assembly.listing program ++
    queries.flatMap SampleRequest.queryLine

def opening : UInt8 := 91

def closing : UInt8 := 93

/-- A text that stays within its line and leaves the brackets of the line alone. -/
def Field (text : Text) : Prop :=
  ∀ byte ∈ text, byte ≠ Text.newline ∧ byte ≠ opening ∧ byte ≠ closing

namespace Field

instance (text : Text) : Decidable (Field text) :=
  decidable_of_iff
    (text.all (fun byte => byte != Text.newline && byte != opening && byte != closing) = true)
    (by simp [Field, and_assoc])

theorem append {front back : Text} (first : Field front) (second : Field back) :
    Field (front ++ back) := fun byte member =>
  (List.mem_append.mp member).elim (first byte) (second byte)

theorem newline_not_mem {text : Text} (field : Field text) : Text.newline ∉ text :=
  fun member => (field _ member).1 rfl

theorem opening_not_mem {text : Text} (field : Field text) : opening ∉ text :=
  fun member => (field _ member).2.1 rfl

theorem closing_not_mem {text : Text} (field : Field text) : closing ∉ text :=
  fun member => (field _ member).2.2 rfl

theorem of_numeral {text : Text}
    (bytes : ∀ byte ∈ text, Text.isDigit byte = true ∨ byte = 45 ∨ byte = comma) : Field text := by
  intro byte member
  refine ⟨?_, ?_, ?_⟩ <;>
  · rintro rfl
    exact absurd (bytes _ member) (by decide)

theorem of_input (inputs : List Word) : Field (inputText inputs) :=
  of_numeral (input_text_bytes inputs)

theorem of_nat (number : Nat) : Field (Decimal.ofNat number) :=
  of_numeral fun byte member => .inl (Decimal.of_nat_digits number byte member)

theorem of_int (number : Int) : Field (Decimal.ofInt number) :=
  of_numeral fun byte member => (Decimal.of_int_bytes number byte member).imp_right .inl

theorem of_answer (result : Result) : Field (answerText result) :=
  ((of_nat _).append (by decide)).append (of_int _)

theorem of_tag (tag : QueryTag) : Field tag.name := by
  cases tag <;> decide

end Field

theorem query_line_row (query : Query) :
    SampleRequest.queryLine query = rowOf query ++ [Text.newline] := by
  have newline : Text.ascii "\n" = [Text.newline] := rfl
  simp only [SampleRequest.queryLine, rowOf, queryRow, inputText, answerText, newline,
    List.append_assoc]

theorem printed_rows (seed : UInt64) (program : Program) (queries : List Query) :
    printed seed program queries = Text.terminated (printedRows seed.toNat program queries) := by
  have newline : Text.ascii "\n" = [Text.newline] := rfl
  have lines : SampleRequest.queryLine = fun query => rowOf query ++ [Text.newline] :=
    funext query_line_row
  simp only [printed, printedRows, SampleRequest.seedLine, seedRow, Assembly.listing,
    Text.terminated, newline, lines, List.flatMap_cons, List.flatMap_append, List.flatMap_map,
    List.append_assoc]

theorem newline_not_mem_row (query : Query) : Text.newline ∉ rowOf query := by
  have tag := (Field.of_tag query.tag).newline_not_mem
  have list := (Field.of_input query.input).newline_not_mem
  have answer := (Field.of_answer query.output).newline_not_mem
  have front : Text.newline ∉ Text.ascii "# query " := by decide
  have opened : Text.newline ∉ Text.ascii " [" := by decide
  have closed : Text.newline ∉ Text.ascii "] -> " := by decide
  simp [rowOf, queryRow, tag, list, answer, front, opened, closed]

theorem newline_not_mem_seed_row (seed : Nat) : Text.newline ∉ seedRow seed := by
  have number := (Field.of_nat seed).newline_not_mem
  have front : Text.newline ∉ Text.ascii "# seed " := by decide
  simp [seedRow, number, front]

theorem lines_printed (seed : UInt64) (program : Program) (queries : List Query) :
    Text.lines (printed seed program queries) = printedRows seed.toNat program queries := by
  rw [printed_rows]
  refine Text.lines_terminated _ fun row member => ?_
  rw [printedRows, List.mem_cons, List.mem_append, List.mem_map] at member
  rcases member with rfl | listed | ⟨query, -, rfl⟩
  · exact newline_not_mem_seed_row _
  · exact Assembly.listing_lines_clean program row listed
  · exact newline_not_mem_row query

/-- The program is all that a reader finds in the print of it. -/
theorem parse_printed (seed : UInt64) (program : Program) (queries : List Query) :
    Assembly.parse (printed seed program queries) = .ok program := by
  have shape : printedRows seed.toNat program queries =
      [seedRow seed.toNat] ++ Assembly.listingLines program ++ queries.map rowOf := rfl
  rw [printed_rows, shape]
  refine Assembly.parse_commented_listing program _ _ (fun row member => ?_) fun row member => ?_
  all_goals
    rw [List.singleton_append, List.mem_cons, List.mem_map] at member
    rcases member with rfl | ⟨query, -, rfl⟩
  · rfl
  · rfl
  · exact newline_not_mem_seed_row _
  · exact newline_not_mem_row query

theorem query_row_fields {tag list answer otherTag otherList otherAnswer : Text}
    (same : queryRow tag list answer = queryRow otherTag otherList otherAnswer)
    (cleanTag : Field otherTag) (cleanList : Field otherList) (cleanAnswer : Field otherAnswer) :
    tag = otherTag ∧ list = otherList ∧ answer = otherAnswer := by
  have shape (tag list answer : Text) : queryRow tag list answer =
      (Text.ascii "# query " ++ tag ++ [32]) ++
        opening :: (list ++ closing :: (Text.ascii " -> " ++ answer)) := by
    have opened : Text.ascii " [" = [32, opening] := rfl
    have closed : Text.ascii "] -> " = closing :: Text.ascii " -> " := rfl
    simp [queryRow, opened, closed]
  have blank : opening ∉ Text.ascii " -> " := by decide
  have arrow : closing ∉ Text.ascii " -> " := by decide
  have front : opening ∉ Text.ascii "# query " ++ otherTag ++ [32] := by
    have start : opening ∉ Text.ascii "# query " := by decide
    have last : opening ∉ [(32 : UInt8)] := by decide
    simp only [List.mem_append, not_or]
    exact ⟨⟨start, cleanTag.opening_not_mem⟩, last⟩
  have back : opening ∉ otherList ++ closing :: (Text.ascii " -> " ++ otherAnswer) := by
    have other : opening ≠ closing := by decide
    simp only [List.mem_append, List.mem_cons, not_or]
    exact ⟨cleanList.opening_not_mem, other, blank, cleanAnswer.opening_not_mem⟩
  have rest : closing ∉ Text.ascii " -> " ++ otherAnswer := by
    simp only [List.mem_append, not_or]
    exact ⟨arrow, cleanAnswer.closing_not_mem⟩
  rw [shape, shape, eq_comm, List.append_cons_inj_of_notMem front back] at same
  obtain ⟨before, -, after⟩ := same
  rw [List.append_cons_inj_of_notMem cleanList.closing_not_mem rest] at after
  obtain ⟨listed, -, answered⟩ := after
  have tagged : otherTag = tag := List.append_cancel_left (List.append_cancel_right before)
  exact ⟨tagged.symm, listed.symm, (List.append_cancel_left answered).symm⟩

theorem row_of_printed {seed : Nat} {program : Program} {queries : List Query}
    {tag list answer : Text}
    (member : queryRow tag list answer ∈ printedRows seed program queries) :
    ∃ query ∈ queries,
      query.tag.name = tag ∧ inputText query.input = list ∧ answerText query.output = answer := by
  rw [printedRows, List.mem_cons, List.mem_append, List.mem_map] at member
  rcases member with seeded | listed | ⟨query, known, same⟩
  · simp [queryRow, seedRow, Text.ascii] at seeded
  · exact absurd rfl (Assembly.no_comment_listed program _ listed)
  · obtain ⟨tagged, listed, answered⟩ := query_row_fields same.symm (Field.of_tag query.tag)
      (Field.of_input query.input) (Field.of_answer query.output)
    exact ⟨query, known, tagged.symm, listed.symm, answered.symm⟩

end StackMachine.Command

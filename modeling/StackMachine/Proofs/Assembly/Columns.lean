import Mathlib.Data.List.TakeWhile
import StackMachine.Assembly.Source
import StackMachine.Proofs.Listing

/-!
# Where the words of a line stand

The column of a token counts the bytes of the line before it, whatever white space they are, and
dropping the comment moves none of them. A fault blames one of the tokens of its line, so its column
is the place of a word.
-/

namespace StackMachine.Assembly

set_option autoImplicit false

/-- So many bytes into a text without comments stands this word, between white space or the ends of
the text. -/
def WordIn (text : Text) (offset : Nat) (word : Text) : Prop :=
  ∃ before after, text = before ++ word ++ after ∧ before.length = offset ∧ word ≠ [] ∧
    (∀ byte ∈ word, Text.isSpace byte = false) ∧ before.getLast?.all Text.isSpace = true ∧
    after.head?.all Text.isSpace = true

/-- From this column on, counted from one, the line has this word: it stands before any comment,
between white space or the ends of what is no comment. -/
def WordAt (line : Text) (column : Nat) (word : Text) : Prop :=
  ∃ before after, line = before ++ word ++ after ∧ before.length + 1 = column ∧ Plain word ∧
    hash ∉ before ∧ before.getLast?.all Text.isSpace = true ∧
    (after.head?.all fun byte => Text.isSpace byte || byte == hash) = true

theorem WordAt.bounds {line word : Text} {column : Nat} (place : WordAt line column word) :
    1 ≤ column ∧ column ≤ line.length := by
  obtain ⟨before, after, rfl, rfl, plain, -⟩ := place
  have long : 0 < word.length := List.length_pos_iff.mpr plain.nonempty
  simp only [List.length_append]
  omega

theorem word_in_behind {rest word : Text} {offset : Nat} (place : WordIn rest offset word)
    (front : Text) (byte : UInt8) (blank : Text.isSpace byte = true) :
    WordIn (front ++ byte :: rest) (front.length + 1 + offset) word := by
  obtain ⟨before, after, rfl, rfl, some, solid, opened, closed⟩ := place
  refine ⟨front ++ byte :: before, after, by simp, ?_, some, solid, ?_, closed⟩
  · rw [List.length_append, List.length_cons]
    omega
  · rw [List.getLast?_append]
    cases before with
    | nil => exact blank
    | cons first before =>
        rw [List.getLast?_eq_some_getLast (List.cons_ne_nil first before)] at opened
        rw [List.getLast?_cons_cons, List.getLast?_eq_some_getLast (List.cons_ne_nil first before)]
        exact opened

theorem word_in_ending {column : Nat} {pending : Text} {token : Token}
    (inside : pending.length < column) (solid : ∀ byte ∈ pending, Text.isSpace byte = false)
    (ended : token ∈ Token.ending column pending) (rest : Text)
    (bounded : rest.head?.all Text.isSpace = true) :
    WordIn (pending.reverse ++ rest) 0 token.text ∧ token.column + pending.length = column := by
  rw [Token.ending] at ended
  split at ended
  · cases ended
  · next some =>
      obtain rfl := List.mem_singleton.mp ended
      refine ⟨⟨[], rest, rfl, rfl, by simpa using some, fun byte member => ?_, rfl, bounded⟩, ?_⟩
      · exact solid byte (List.mem_reverse.mp member)
      · exact Nat.sub_add_cancel (Nat.le_of_lt inside)

/-- The bytes in hand and the bytes still to be read make one text, in which the tokens have their
places. By induction on what is still to be read: the next byte is taken in hand, or it ends the
token in hand and the rest begins behind it. -/
theorem scan_places (text pending : Text) (column : Nat) (inside : pending.length < column)
    (solid : ∀ byte ∈ pending, Text.isSpace byte = false) (token : Token)
    (member : token ∈ Token.scan column pending text) :
    ∃ offset, WordIn (pending.reverse ++ text) offset token.text ∧
      token.column + pending.length = column + offset := by
  induction text generalizing pending column with
  | nil => exact ⟨0, word_in_ending inside solid member [] rfl⟩
  | cons byte rest ih =>
      rw [Token.scan] at member
      by_cases blank : Text.isSpace byte = true
      · rw [if_pos blank, List.mem_append] at member
        rcases member with ended | later
        · exact ⟨0, word_in_ending inside solid ended (byte :: rest) blank⟩
        · obtain ⟨offset, place, counted⟩ :=
            ih [] (column + 1) (Nat.succ_pos column) (by simp) later
          refine ⟨_, word_in_behind place pending.reverse byte blank, ?_⟩
          rw [List.length_nil] at counted
          rw [List.length_reverse]
          omega
      · rw [if_neg blank] at member
        have taken : ∀ other ∈ byte :: pending, Text.isSpace other = false :=
          List.forall_mem_cons.mpr ⟨by simpa using blank, solid⟩
        obtain ⟨offset, place, counted⟩ :=
          ih (byte :: pending) (column + 1) (Nat.succ_lt_succ inside) taken member
        rw [List.reverse_cons, List.append_assoc] at place
        refine ⟨offset, place, ?_⟩
        rw [List.length_cons] at counted
        omega

/-- What stands before a comment keeps its place, and the comment ends no later than the next
word. -/
theorem token_placed {line : Text} {token : Token} (member : token ∈ tokenize line) :
    WordAt line token.column token.text := by
  obtain ⟨offset, ⟨before, after, shape, rfl, some, solid, opened, closed⟩, counted⟩ :=
    scan_places _ [] 1 Nat.one_pos (by simp) token member
  have noHash : ∀ byte ∈ before ++ token.text ++ after, byte ≠ hash := by
    intro byte inBody
    rw [← shape] at inBody
    simpa using List.mem_takeWhile_imp inBody
  have whole :
      line = before ++ token.text ++ (after ++ line.dropWhile fun byte => byte ≠ hash) := by
    rw [← List.append_assoc, ← shape]
    exact (List.takeWhile_append_dropWhile).symm
  refine ⟨before, _, whole, ?_, ⟨some, fun byte inWord => ⟨solid byte inWord, ?_⟩⟩, ?_, opened, ?_⟩
  · rw [List.length_nil] at counted
    omega
  · exact noHash byte (by simp [inWord])
  · intro inBefore
    exact noHash hash (by simp [inBefore]) rfl
  · have stops := List.head?_dropWhile_not (fun byte : UInt8 => decide (byte ≠ hash)) line
    cases after with
    | cons byte after =>
        have blank : Text.isSpace byte = true := closed
        simp [blank]
    | nil =>
        rw [List.nil_append]
        cases comment : line.dropWhile fun byte => decide (byte ≠ hash) with
        | nil => rfl
        | cons byte rest =>
            rw [comment] at stops
            have isHash : byte = hash := by simpa using stops
            rw [isHash]
            rfl

/-- The fault has the column of one of the tokens. -/
def Fault.Blames (fault : Fault) (tokens : List Token) : Prop :=
  ∃ token ∈ tokens, fault.column = token.column

theorem Header.set_blames {header : Header} {directive : Directive} {value : Token} {fault : Fault}
    (refused : header.set directive value = .error fault) : fault.column = value.column := by
  cases directive with
  | maxSteps | jumpMode | inputMode =>
      simp only [set] at refused
      split at refused
      · cases refused
      · rw [← Except.error.inj refused]
        rfl

theorem Header.read_blames {header : Header} {started : Bool} {head : Token}
    {arguments : List Token} {fault : Fault}
    (refused : header.read started head arguments = .error fault) :
    fault.Blames (head :: arguments) := by
  have first (error : Text → LineError) (same : Except.error (head.fault error) =
      (Except.error fault : Except Fault Header)) : fault.Blames (head :: arguments) :=
    ⟨head, by simp, by rw [← Except.error.inj same]; rfl⟩
  unfold read at refused
  split at refused
  · exact first _ refused
  · split at refused
    · exact first _ refused
    · next extra _ =>
        exact ⟨extra, by simp, by rw [← Except.error.inj refused]; rfl⟩
    · next value =>
        split at refused
        · exact first _ refused
        · split at refused
          · exact first _ refused
          · exact ⟨value, by simp, set_blames refused⟩

theorem read_operand_blames {arguments : List Token} {fault : Fault}
    (refused : readOperand arguments = .error fault) : fault.Blames arguments := by
  unfold readOperand at refused
  split at refused
  · cases refused
  · next token _ =>
      split at refused
      · cases refused
      · exact ⟨token, by simp, by rw [← Except.error.inj refused]; rfl⟩

theorem read_instr_blames {head : Token} {arguments : List Token} {fault : Fault}
    (refused : readInstr head arguments = .error fault) : fault.Blames (head :: arguments) := by
  unfold readInstr at refused
  split at refused
  · exact ⟨head, by simp, by rw [← Except.error.inj refused]; rfl⟩
  · split at refused
    · next extra found =>
        exact ⟨extra, by simp [List.mem_of_getElem? found], by rw [← Except.error.inj refused]; rfl⟩
    · split at refused
      · next operand missing =>
          rw [Except.error.inj refused] at missing
          obtain ⟨token, member, same⟩ := read_operand_blames missing
          exact ⟨token, by simp [member], same⟩
      · split at refused
        · cases refused
        · exact ⟨head, by simp, by rw [← Except.error.inj refused]⟩

theorem fault_placed {draft : Draft} {line : Text} {fault : Fault}
    (refused : (draft.absorb (tokenize line)).2 = some fault) :
    ∃ word, WordAt line fault.column word := by
  have blames : fault.Blames (tokenize line) := by
    cases tokens : tokenize line with
    | nil =>
        rw [tokens] at refused
        cases refused
    | cons head arguments =>
        rw [tokens, Draft.absorb] at refused
        split at refused
        · split at refused
          · cases refused
          · next read => exact Option.some.inj refused ▸ Header.read_blames read
        · split at refused
          · cases refused
          · next read => exact Option.some.inj refused ▸ read_instr_blames read
  obtain ⟨token, member, same⟩ := blames
  exact ⟨token.text, same ▸ token_placed member⟩

end StackMachine.Assembly

import StackMachine.Assembly.Token

/-!
# Lines and words by splitting

What the reader collects byte by byte are pieces of a split: the lines are the pieces between the
newlines, and the words of a line are the nonempty pieces between its white space, before the
comment.
-/

namespace StackMachine.Assembly

set_option autoImplicit false

/-- The pieces between the newlines. A final empty piece is no line. -/
def rows (text : Text) : List Text :=
  let pieces := text.splitOn Text.newline
  if pieces.getLast? = some [] then pieces.dropLast else pieces

/-- The nonempty pieces between white space, up to the first hash. -/
def words (line : Text) : List Text :=
  ((line.takeWhile fun byte => byte ≠ hash).splitOnP Text.isSpace).filter fun word => word ≠ []

/-- The words of the lines that have any. -/
def sentences (lines : List Text) : List (List Text) :=
  (lines.map words).filter fun sentence => sentence ≠ []

theorem split_from_prepend (separator : UInt8) (pending text : Text) :
    Text.splitFrom separator pending text =
      text.splitOnPPrepend (fun byte => byte == separator) pending := by
  induction text generalizing pending with
  | nil => rw [Text.splitFrom, List.splitOnPPrepend_nil]
  | cons byte text ih =>
      rw [Text.splitFrom]
      by_cases separates : byte = separator
      · have test : (byte == separator) = true := beq_iff_eq.mpr separates
        rw [if_pos separates, ih, List.splitOnPPrepend_cons_pos (p := (· == separator)) test,
          List.splitOnP_eq_splitOnPPrepend]
      · have test : (byte == separator) = false := beq_false_of_ne separates
        rw [if_neg separates, ih, List.splitOnPPrepend_cons_neg (p := (· == separator)) test]

theorem lines_are_rows (text : Text) : Text.lines text = rows text := by
  have pieces : Text.split Text.newline text = text.splitOn Text.newline :=
    split_from_prepend Text.newline [] text
  rw [Text.lines, rows, pieces]

theorem ending_is_word (column : Nat) (pending : Text) :
    (Token.ending column pending).map Token.text =
      [pending.reverse].filter fun word => word ≠ [] := by
  by_cases empty : pending = []
  · simp [Token.ending, empty]
  · simp [Token.ending, empty]

theorem scan_is_split (column : Nat) (pending text : Text) :
    (Token.scan column pending text).map Token.text =
      (text.splitOnPPrepend Text.isSpace pending).filter fun word => word ≠ [] := by
  induction text generalizing column pending with
  | nil => rw [Token.scan, ending_is_word, List.splitOnPPrepend_nil]
  | cons byte text ih =>
      rw [Token.scan]
      by_cases blank : Text.isSpace byte = true
      · rw [if_pos blank, List.map_append, ending_is_word, ih,
          List.splitOnPPrepend_cons_pos blank, List.splitOnP_eq_splitOnPPrepend,
          ← List.filter_append, List.singleton_append]
      · rw [if_neg blank, ih, List.splitOnPPrepend_cons_neg (by simpa using blank)]

theorem tokens_are_words (line : Text) : (tokenize line).map Token.text = words line := by
  rw [tokenize, scan_is_split, words, List.splitOnP_eq_splitOnPPrepend, stripComment]

example : words "jump\t+07#1\r" = [Text.ascii "jump", Text.ascii "+07"] := by decide

theorem sentences_blank (line : Text) (lines : List Text) (blank : tokenize line = []) :
    sentences (line :: lines) = sentences lines := by
  have none : words line = [] := by rw [← tokens_are_words, blank, List.map_nil]
  rw [sentences, List.map_cons, none, List.filter_cons_of_neg (by simp), sentences]

theorem sentences_words (line : Text) (lines : List Text) (nonblank : tokenize line ≠ []) :
    sentences (line :: lines) = (tokenize line).map Token.text :: sentences lines := by
  have some : words line ≠ [] := by
    rw [← tokens_are_words]
    exact fun empty => nonblank (List.map_eq_nil_iff.mp empty)
  rw [sentences, List.map_cons, List.filter_cons_of_pos (by simpa using some), sentences,
    tokens_are_words]

end StackMachine.Assembly

import StackMachine.Proofs.Decimal
import StackMachine.Render.Language

/-!
# Tokens of program text

One line of source text in a target language, cut into words, numbers and operators. Words and
operators are as long as possible, blanks separate and mean nothing else, and a line with any byte
that begins no token has no tokens at all. A number is written without leading zeros, since some
languages give those a meaning of their own.
-/

namespace StackMachine.Source

set_option autoImplicit false

inductive Symbol where
  | openParen | closeParen | openBracket | closeBracket | openBrace | closeBrace
  | comma | colon | semicolon | dot | question | hash | ampersand
  | assign | plus | minus | star | slash | percent
  | eq | ne | lt | le | gt | ge
  | plusAssign | andAssign | increment | decrement | floorDiv
  | arrow | fatArrow | path
deriving DecidableEq, Repr

def Symbol.text : Symbol → Text
  | .openParen => "("
  | .closeParen => ")"
  | .openBracket => "["
  | .closeBracket => "]"
  | .openBrace => "\x7b"
  | .closeBrace => "\x7d"
  | .comma => ","
  | .colon => ":"
  | .semicolon => ";"
  | .dot => "."
  | .question => "?"
  | .hash => "#"
  | .ampersand => "&"
  | .assign => "="
  | .plus => "+"
  | .minus => "-"
  | .star => "*"
  | .slash => "/"
  | .percent => "%"
  | .eq => "=="
  | .ne => "!="
  | .lt => "<"
  | .le => "<="
  | .gt => ">"
  | .ge => ">="
  | .plusAssign => "+="
  | .andAssign => "&="
  | .increment => "++"
  | .decrement => "--"
  | .floorDiv => "//"
  | .arrow => "->"
  | .fatArrow => "=>"
  | .path => "::"

/-- A number keeps the letters that follow its digits, such as the mark of its type. -/
inductive Token (Word : Type) where
  | word (word : Word)
  | number (value : Nat) (suffix : Text)
  | symbol (symbol : Symbol)
deriving DecidableEq, Repr

/-- What the lines of one language are made of. -/
structure Lexicon (Word : Type) where
  symbols : List Symbol
  word : Text → Word

def blank : UInt8 := 32

def isWordByte (byte : UInt8) : Bool :=
  Text.isLetter byte || Text.isDigit byte || byte == Render.Language.underscore

/-- The token that is still growing, with its bytes latest first. -/
inductive Pending where
  | none
  | word (bytes : Text)
  | operator (bytes : Text)
deriving DecidableEq, Repr

namespace Lexicon

variable {Word : Type} (lexicon : Lexicon Word)

def symbol? (text : Text) : Option Symbol := lexicon.symbols.find? fun symbol => symbol.text = text

def token? (text : Text) : Option (Token Word) :=
  let digits := text.takeWhile Text.isDigit
  if digits = [] then some (.word (lexicon.word text))
  else if digits = Decimal.ofNat (Decimal.value digits) then
    some (.number (Decimal.value digits) (text.dropWhile Text.isDigit))
  else none

def flush : Pending → Option (List (Token Word))
  | .none => some []
  | .word bytes => (lexicon.token? bytes.reverse).map fun token => [token]
  | .operator bytes => (lexicon.symbol? bytes.reverse).map fun symbol => [.symbol symbol]

/-- Takes one more byte: the tokens that it ends, and the token that it begins or goes on with. -/
def absorb (pending : Pending) (byte : UInt8) : Option (List (Token Word) × Pending) :=
  if byte = blank then (lexicon.flush pending).map fun ended => (ended, .none)
  else if isWordByte byte then
    match pending with
    | .word bytes => some ([], .word (byte :: bytes))
    | .none | .operator _ => (lexicon.flush pending).map fun ended => (ended, .word [byte])
  else
    match pending with
    | .operator bytes =>
        if (lexicon.symbol? (byte :: bytes).reverse).isSome then
          some ([], .operator (byte :: bytes))
        else (lexicon.flush pending).map fun ended => (ended, .operator [byte])
    | .none | .word _ => (lexicon.flush pending).map fun ended => (ended, .operator [byte])

def scan : Pending → Text → Option (List (Token Word))
  | pending, [] => lexicon.flush pending
  | pending, byte :: rest =>
      (lexicon.absorb pending byte).bind fun (ended, next) =>
        (scan next rest).map fun tokens => ended ++ tokens

def tokens (line : Text) : Option (List (Token Word)) := lexicon.scan .none line

end Lexicon

def Pending.operatorBytes : Pending → Text
  | .operator bytes => bytes
  | .none | .word _ => []

def Pending.isWord : Pending → Bool
  | .word _ => true
  | .none | .operator _ => false

/-- Whether no word is growing after the text. -/
def endsBetween (growing : Bool) : Text → Bool
  | [] => !growing
  | byte :: rest => endsBetween (isWordByte byte) rest

def startsWord : Text → Bool
  | [] => false
  | byte :: _ => isWordByte byte

theorem blank_is_no_word_byte : isWordByte blank = false := rfl

namespace Lexicon

variable {Word : Type} (lexicon : Lexicon Word)

theorem absorb_word_byte (pending : Pending) (byte : UInt8) (inWord : isWordByte byte = true)
    (between : pending.isWord = false) :
    lexicon.absorb pending byte =
      (lexicon.flush pending).map fun ended => (ended, .word [byte]) := by
  have notBlank : byte ≠ blank := by
    rintro rfl
    rw [blank_is_no_word_byte] at inWord
    contradiction
  cases pending with
  | word bytes => simp [Pending.isWord] at between
  | none => simp only [absorb, if_neg notBlank, inWord, if_true]
  | operator bytes => simp only [absorb, if_neg notBlank, inWord, if_true]

theorem absorb_grow_word (bytes : Text) (byte : UInt8) (inWord : isWordByte byte = true) :
    lexicon.absorb (.word bytes) byte = some ([], .word (byte :: bytes)) := by
  have notBlank : byte ≠ blank := by
    rintro rfl
    rw [blank_is_no_word_byte] at inWord
    contradiction
  simp only [absorb, if_neg notBlank, inWord, if_true]

private theorem flushed_next {Item : Type} {flushed : Option Item} {ended : Item}
    {set next : Pending} (absorbed : (flushed.map fun ended => (ended, set)) = some (ended, next)) :
    next = set := by
  rw [Option.map_eq_some_iff] at absorbed
  obtain ⟨_, _, same⟩ := absorbed
  exact (congrArg Prod.snd same).symm

theorem absorb_is_word (pending next : Pending) (byte : UInt8) (ended : List (Token Word))
    (absorbed : lexicon.absorb pending byte = some (ended, next)) :
    next.isWord = isWordByte byte := by
  by_cases isBlank : byte = blank
  · subst isBlank
    simp only [absorb, if_true] at absorbed
    rw [flushed_next absorbed]
    rfl
  · by_cases inWord : isWordByte byte = true
    · rw [inWord]
      cases pending with
      | word bytes =>
          rw [absorb_grow_word lexicon bytes byte inWord] at absorbed
          cases absorbed
          rfl
      | none | operator _ =>
          rw [absorb_word_byte lexicon _ byte inWord rfl] at absorbed
          rw [flushed_next absorbed]
          rfl
    · have outside : isWordByte byte = false := Bool.eq_false_iff.mpr inWord
      rw [outside]
      cases pending with
      | operator bytes =>
          simp only [absorb, if_neg isBlank, outside, Bool.false_eq_true, if_false] at absorbed
          split at absorbed
          · cases absorbed
            rfl
          · rw [flushed_next absorbed]
            rfl
      | none | word _ =>
          simp only [absorb, if_neg isBlank, outside, Bool.false_eq_true, if_false] at absorbed
          rw [flushed_next absorbed]
          rfl

theorem scan_before_word (pending : Pending) (before : Text) (byte : UInt8) (rest : Text)
    (between : endsBetween pending.isWord before = true) (inWord : isWordByte byte = true) :
    lexicon.scan pending (before ++ byte :: rest) =
      (lexicon.scan pending before).bind fun left =>
        (lexicon.scan .none (byte :: rest)).map fun right => left ++ right := by
  induction before generalizing pending with
  | nil =>
      have quiet : pending.isWord = false := by simpa [endsBetween] using between
      simp only [List.nil_append, scan, absorb_word_byte lexicon pending byte inWord quiet,
        absorb_word_byte lexicon .none byte inWord rfl]
      cases lexicon.flush pending with
      | none => rfl
      | some ended => simp [flush]
  | cons head before ih =>
      generalize lexicon.scan .none (byte :: rest) = whole at ih ⊢
      simp only [List.cons_append, scan]
      cases absorbed : lexicon.absorb pending head with
      | none => rfl
      | some step =>
          obtain ⟨ended, next⟩ := step
          have nextWord := absorb_is_word lexicon pending next head ended absorbed
          have later : endsBetween next.isWord before = true := by
            rw [nextWord]
            exact between
          simp only [Option.bind_some, ih next later]
          cases lexicon.scan next before with
          | none => rfl
          | some left =>
              cases whole with
              | none => rfl
              | some right => simp

theorem scan_grow_word (bytes word rest : Text)
    (inWord : ∀ byte ∈ word, isWordByte byte = true) :
    lexicon.scan (.word bytes) (word ++ rest) =
      lexicon.scan (.word (word.reverse ++ bytes)) rest := by
  induction word generalizing bytes with
  | nil => rfl
  | cons byte word ih =>
      have first : isWordByte byte = true := inWord byte (by simp)
      have others : ∀ other ∈ word, isWordByte other = true :=
        fun other member => inWord other (List.mem_cons_of_mem _ member)
      simp only [List.cons_append, scan, absorb_grow_word lexicon bytes byte first,
        Option.bind_some, List.nil_append, Option.map_id_fun', ih (byte :: bytes) others]
      simp

theorem scan_after_word (bytes rest : Text) (ends : startsWord rest = false) :
    lexicon.scan (.word bytes) rest =
      (lexicon.token? bytes.reverse).bind fun token =>
        (lexicon.scan .none rest).map fun right => token :: right := by
  cases rest with
  | nil =>
      simp only [scan, flush]
      cases lexicon.token? bytes.reverse <;> rfl
  | cons byte rest =>
      have outside : isWordByte byte = false := ends
      by_cases isBlank : byte = blank
      · simp only [scan, absorb, if_pos isBlank, flush]
        cases lexicon.token? bytes.reverse with
        | none => rfl
        | some token => simp
      · simp only [scan, absorb, if_neg isBlank, outside, Bool.false_eq_true, if_false, flush]
        cases lexicon.token? bytes.reverse with
        | none => rfl
        | some token => simp

/-- A whole word inside a line is one token, and what stands on its two sides is cut by itself. -/
theorem tokens_around_word (before word after : Text) (between : endsBetween false before = true)
    (nonempty : word ≠ []) (inWord : ∀ byte ∈ word, isWordByte byte = true)
    (ends : startsWord after = false) :
    lexicon.tokens (before ++ (word ++ after)) =
      (lexicon.tokens before).bind fun left =>
        (lexicon.token? word).bind fun token =>
          (lexicon.tokens after).map fun right => left ++ token :: right := by
  obtain ⟨byte, word, rfl⟩ := List.exists_cons_of_ne_nil nonempty
  have first : isWordByte byte = true := inWord byte (by simp)
  have others : ∀ other ∈ word, isWordByte other = true :=
    fun other member => inWord other (List.mem_cons_of_mem _ member)
  have grown := scan_grow_word lexicon [byte] word after others
  have begun : lexicon.scan .none (byte :: (word ++ after)) =
      lexicon.scan (.word [byte]) (word ++ after) := by
    simp [scan, absorb_word_byte lexicon .none byte first rfl, flush]
  rw [tokens, List.cons_append, scan_before_word lexicon .none before byte _ between first, begun,
    grown, scan_after_word lexicon _ after ends]
  have spelled : (word.reverse ++ [byte]).reverse = byte :: word := by simp
  simp only [spelled, tokens]
  cases lexicon.scan .none before with
  | none => rfl
  | some left =>
      cases lexicon.token? (byte :: word) with
      | none => rfl
      | some token =>
          cases lexicon.scan .none after with
          | none => rfl
          | some right => rfl

end Lexicon

theorem digit_in_word (byte : UInt8) (digit : Text.isDigit byte = true) :
    isWordByte byte = true := by
  simp [isWordByte, digit]

theorem letter_no_digit {byte : UInt8} (letter : Text.isLetter byte = true) :
    Text.isDigit byte = false := by
  simp only [Text.isLetter, Bool.or_eq_true, Bool.and_eq_true, decide_eq_true_eq,
    UInt8.le_iff_toNat_le] at letter
  simp only [Text.isDigit, Bool.and_eq_false_iff, decide_eq_false_iff_not, UInt8.le_iff_toNat_le]
  right
  have above : 65 ≤ byte.toNat := by
    rcases letter with upper | lower
    · exact upper.1
    · exact Nat.le_trans (by decide) lower.1
  exact fun low => absurd (Nat.le_trans above low) (by decide)

/-- An identifier is a word, and it does not begin like a number. -/
theorem identifier_in_word {head : UInt8} {tail : Text}
    (identifier : Render.Language.isIdentifier (head :: tail) = true) :
    (∀ byte ∈ head :: tail, isWordByte byte = true) ∧ Text.isDigit head = false := by
  simp only [Render.Language.isIdentifier, Bool.and_eq_true, Bool.or_eq_true,
    List.all_eq_true] at identifier
  obtain ⟨opens, follows⟩ := identifier
  constructor
  · intro byte member
    rcases List.mem_cons.mp member with rfl | later
    · rcases opens with letter | underscore
      · simp [isWordByte, letter]
      · simp [isWordByte, underscore]
    · simpa [isWordByte] using follows byte later
  · rcases opens with letter | underscore
    · exact letter_no_digit letter
    · rw [eq_of_beq underscore]
      rfl

theorem take_digits (number : Nat) (suffix : Text)
    (ends : ∀ byte ∈ suffix.head?, Text.isDigit byte = false) :
    (Decimal.ofNat number ++ suffix).takeWhile Text.isDigit = Decimal.ofNat number ∧
      (Decimal.ofNat number ++ suffix).dropWhile Text.isDigit = suffix := by
  have digits := Decimal.of_nat_digits number
  rw [List.takeWhile_append_of_pos digits, List.dropWhile_append_of_pos digits]
  cases suffix with
  | nil => simp
  | cons byte rest =>
      have other : Text.isDigit byte = false := ends byte (by simp)
      simp [other]

/-- The marks that may follow a number: nothing, or letters and digits that begin with a letter. -/
def isSuffix : Text → Bool
  | [] => true
  | byte :: rest => Text.isLetter byte && !Text.isDigit byte && rest.all isWordByte

namespace Lexicon

variable {Word : Type} (lexicon : Lexicon Word)

theorem token_number (number : Nat) (suffix : Text) (mark : isSuffix suffix = true) :
    lexicon.token? (Decimal.ofNat number ++ suffix) = some (.number number suffix) := by
  have ends : ∀ byte ∈ suffix.head?, Text.isDigit byte = false := by
    intro byte member
    cases suffix with
    | nil => simp at member
    | cons head rest =>
        have same : head = byte := by simpa using member
        simp only [isSuffix, Bool.and_eq_true, Bool.not_eq_true'] at mark
        rw [← same]
        exact mark.1.2
  obtain ⟨taken, dropped⟩ := take_digits number suffix ends
  simp only [token?, taken, dropped, Decimal.of_nat_ne_nil, if_false, Decimal.value_of_nat,
    if_true]

theorem tokens_number {before after : Text} {left right : List (Token Word)} (number : Nat)
    (suffix : Text) (mark : isSuffix suffix = true)
    (leftTokens : lexicon.tokens before = some left)
    (rightTokens : lexicon.tokens after = some right)
    (between : endsBetween false before = true) (ends : startsWord after = false) :
    lexicon.tokens (before ++ (Decimal.ofNat number ++ suffix ++ after)) =
      some (left ++ .number number suffix :: right) := by
  have inWord : ∀ byte ∈ Decimal.ofNat number ++ suffix, isWordByte byte = true := by
    intro byte member
    rcases List.mem_append.mp member with digit | letter
    · exact digit_in_word byte (Decimal.of_nat_digits number byte digit)
    · cases suffix with
      | nil => simp at letter
      | cons head rest =>
          simp only [isSuffix, Bool.and_eq_true, List.all_eq_true] at mark
          rcases List.mem_cons.mp letter with first | later
          · rw [first, isWordByte, mark.1.1]
            rfl
          · exact mark.2 byte later
  have nonempty : Decimal.ofNat number ++ suffix ≠ [] := by simp [Decimal.of_nat_ne_nil]
  rw [tokens_around_word lexicon before _ after between nonempty inWord ends, leftTokens,
    token_number lexicon number suffix mark, rightTokens]
  rfl

theorem tokens_name (before after : Text) (left right : List (Token Word)) (name : Text)
    (identifier : Render.Language.isIdentifier name = true)
    (leftTokens : lexicon.tokens before = some left)
    (rightTokens : lexicon.tokens after = some right)
    (between : endsBetween false before = true) (ends : startsWord after = false) :
    lexicon.tokens (before ++ (name ++ after)) =
      some (left ++ .word (lexicon.word name) :: right) := by
  cases name with
  | nil => simp [Render.Language.isIdentifier] at identifier
  | cons head tail =>
      obtain ⟨inWord, noDigit⟩ := identifier_in_word identifier
      have named : lexicon.token? (head :: tail) = some (.word (lexicon.word (head :: tail))) := by
        simp [token?, noDigit]
      rw [tokens_around_word lexicon before _ after between (by simp) inWord ends, leftTokens,
        named, rightTokens]
      rfl

theorem tokens_indented (width : Nat) (line : Text) :
    lexicon.tokens (List.replicate width blank ++ line) = lexicon.tokens line := by
  induction width with
  | zero => rfl
  | succ width ih =>
      rw [← ih]
      simp [tokens, List.replicate_succ, scan, absorb, flush]

theorem symbol_no_newline (text : Text) (symbol : Symbol)
    (found : lexicon.symbol? text = some symbol) : Text.newline ∉ text := by
  have spelled : symbol.text = text := by simpa using List.find?_some found
  rw [← spelled]
  cases symbol <;> decide

theorem flush_no_newline (pending : Pending) (ended : List (Token Word))
    (flushed : lexicon.flush pending = some ended) : Text.newline ∉ pending.operatorBytes := by
  cases pending with
  | none | word _ => simp [Pending.operatorBytes]
  | operator bytes =>
      simp only [flush, Option.map_eq_some_iff] at flushed
      obtain ⟨symbol, found, -⟩ := flushed
      simpa [Pending.operatorBytes] using symbol_no_newline lexicon _ symbol found

theorem absorb_no_newline (pending next : Pending) (byte : UInt8) (ended : List (Token Word))
    (absorbed : lexicon.absorb pending byte = some (ended, next))
    (clean : Text.newline ∉ next.operatorBytes) :
    byte ≠ Text.newline ∧ Text.newline ∉ pending.operatorBytes := by
  have flushedClean : ∀ set : Pending,
      ((lexicon.flush pending).map fun ended => (ended, set)) = some (ended, next) →
        next = set ∧ Text.newline ∉ pending.operatorBytes := by
    intro set mapped
    obtain ⟨flushed, found, -⟩ := Option.map_eq_some_iff.mp mapped
    exact ⟨flushed_next mapped, flush_no_newline lexicon pending flushed found⟩
  by_cases isBlank : byte = blank
  · simp only [absorb, if_pos isBlank] at absorbed
    refine ⟨?_, (flushedClean _ absorbed).2⟩
    rw [isBlank]
    decide
  · by_cases inWord : isWordByte byte = true
    · have notNewline : byte ≠ Text.newline := by
        rintro rfl
        exact absurd inWord (by decide)
      cases pending with
      | word bytes => exact ⟨notNewline, by simp [Pending.operatorBytes]⟩
      | none | operator _ =>
          rw [absorb_word_byte lexicon _ byte inWord rfl] at absorbed
          exact ⟨notNewline, (flushedClean _ absorbed).2⟩
    · have outside : isWordByte byte = false := Bool.eq_false_iff.mpr inWord
      have begun : ∀ bytes : Text, next = .operator (byte :: bytes) → byte ≠ Text.newline := by
        rintro bytes shape rfl
        exact clean (by simp [shape, Pending.operatorBytes])
      cases pending with
      | operator bytes =>
          simp only [absorb, if_neg isBlank, outside, Bool.false_eq_true, if_false] at absorbed
          split at absorbed
          · cases absorbed
            simp only [Pending.operatorBytes, List.mem_cons, not_or] at clean
            exact ⟨fun same => clean.1 same.symm, clean.2⟩
          · have flushed := flushedClean _ absorbed
            exact ⟨begun [] flushed.1, flushed.2⟩
      | none | word _ =>
          simp only [absorb, if_neg isBlank, outside, Bool.false_eq_true, if_false] at absorbed
          have flushed := flushedClean _ absorbed
          exact ⟨begun [] flushed.1, flushed.2⟩

theorem scan_no_newline (pending : Pending) (line : Text) (found : List (Token Word))
    (scanned : lexicon.scan pending line = some found) :
    Text.newline ∉ line ∧ Text.newline ∉ pending.operatorBytes := by
  induction line generalizing pending found with
  | nil => exact ⟨by simp, flush_no_newline lexicon pending found scanned⟩
  | cons byte line ih =>
      simp only [scan, Option.bind_eq_some_iff, Option.map_eq_some_iff] at scanned
      obtain ⟨⟨ended, next⟩, absorbed, later, scannedRest, -⟩ := scanned
      obtain ⟨restClean, nextClean⟩ := ih next later scannedRest
      have step := absorb_no_newline lexicon pending next byte ended absorbed nextClean
      refine ⟨?_, step.2⟩
      simp only [List.mem_cons, not_or]
      exact ⟨fun same => step.1 same.symm, restClean⟩

/-- No token has a newline in it, so a text with a newline is no line. -/
theorem tokens_no_newline (line : Text) (found : List (Token Word))
    (read : lexicon.tokens line = some found) : Text.newline ∉ line :=
  (scan_no_newline lexicon .none line found read).1

end Lexicon

end StackMachine.Source

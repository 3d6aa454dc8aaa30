import StackMachine.Proofs.Source.Token

/-!
# Readers over tokens

A reader takes an item off the front of a row of tokens. The expression grammar of a language is a
tower of levels, from the loosest operators down to the atoms; brackets start the tower again, with
one less to spend on depth. A level reads at most one operator, so a chain of them is refused rather
than grouped one way or the other.
-/

namespace StackMachine.Source

set_option autoImplicit false

abbrev Reader (Word Item : Type) := List (Token Word) → Option (Item × List (Token Word))

namespace Reader

variable {Word Item Made : Type}

def expect (symbol : Symbol) : List (Token Word) → Option (List (Token Word))
  | .symbol found :: rest => if found = symbol then some rest else none
  | _ => none

def mapped (make : Item → Made) (inner : Reader Word Item) : Reader Word Made := fun tokens =>
  (inner tokens).map fun (item, rest) => (make item, rest)

def upTo (symbol : Symbol) (inner : Reader Word Item) : Reader Word Item := fun tokens =>
  (inner tokens).bind fun (item, rest) => (expect symbol rest).map fun rest => (item, rest)

def pairUpTo (between symbol : Symbol) (make : Item → Item → Made) (inner : Reader Word Item) :
    Reader Word Made := fun tokens =>
  (upTo between inner tokens).bind fun (first, rest) =>
    mapped (make first) (upTo symbol inner) rest

/-- One operand, or two that an operator of this level joins. -/
def level (join : Symbol → Option (Item → Item → Item)) (operand : Reader Word Item) :
    Reader Word Item := fun tokens =>
  (operand tokens).bind fun (left, rest) =>
    match rest with
    | .symbol symbol :: following =>
        match join symbol with
        | some make => mapped (make left) operand following
        | none => some (left, rest)
    | _ => some (left, rest)

def whole (inner : Reader Word Item) (tokens : List (Token Word)) : Option Item :=
  match inner tokens with
  | some (item, []) => some item
  | _ => none

end Reader

/-- A line with a gap and the tokens on its two sides. Whatever word or number fills the gap stands
there as a token of its own. -/
structure Gap {Word : Type} (lexicon : Lexicon Word) where
  before : Text
  after : Text
  left : List (Token Word)
  right : List (Token Word)
  leftTokens : lexicon.tokens before = some left
  rightTokens : lexicon.tokens after = some right
  between : endsBetween false before = true
  ends : startsWord after = false

/-- A gap for a number that may have a sign. -/
structure SignedGap {Word : Type} (lexicon : Lexicon Word) extends Gap lexicon where
  signTokens : lexicon.tokens (before ++ "-") = some (left ++ [.symbol .minus])
  signBetween : endsBetween false (before ++ "-") = true

theorem between_assignment : endsBetween false "pc = " = true := rfl

theorem ends_statement : startsWord ";" = false := rfl

theorem between_budget : endsBetween false "while steps < " = true := rfl

theorem between_budget_sign : endsBetween false (Text.ascii "while steps < " ++ "-") = true := rfl

/-- The tokens of an integer: a negative one has its sign apart. -/
def intTokens {Word : Type} (suffix : Text) : Int → List (Token Word)
  | .ofNat value => [.number value suffix]
  | .negSucc below => [.symbol .minus, .number (below + 1) suffix]

section

variable {Word : Type} {lexicon : Lexicon Word}

theorem Gap.tokens_literal (gap : Gap lexicon) (line : Text) (number : Nat) (suffix : Text)
    (mark : isSuffix suffix = true)
    (shape : line = gap.before ++ (Decimal.ofNat number ++ (suffix ++ gap.after))) :
    lexicon.tokens line = some (gap.left ++ .number number suffix :: gap.right) := by
  rw [shape, ← List.append_assoc (Decimal.ofNat number)]
  exact lexicon.tokens_number number suffix mark gap.leftTokens gap.rightTokens gap.between gap.ends

theorem Gap.tokens_name (gap : Gap lexicon) (name : Text)
    (identifier : Render.Language.isIdentifier name = true) :
    lexicon.tokens (gap.before ++ (name ++ gap.after)) =
      some (gap.left ++ .word (lexicon.word name) :: gap.right) :=
  lexicon.tokens_name _ _ _ _ name identifier gap.leftTokens gap.rightTokens gap.between gap.ends

def SignedGap.digits (gap : SignedGap lexicon) : Gap lexicon where
  before := gap.before ++ "-"
  after := gap.after
  left := gap.left ++ [.symbol .minus]
  right := gap.right
  leftTokens := gap.signTokens
  rightTokens := gap.rightTokens
  between := gap.signBetween
  ends := gap.ends

theorem SignedGap.tokens_int (gap : SignedGap lexicon) (line : Text) (value : Int) (suffix : Text)
    (mark : isSuffix suffix = true)
    (shape : line = gap.before ++ (Decimal.ofInt value ++ (suffix ++ gap.after))) :
    lexicon.tokens line = some (gap.left ++ intTokens suffix value ++ gap.right) := by
  cases value with
  | ofNat value =>
      rw [gap.tokens_literal line value suffix mark shape]
      simp [intTokens]
  | negSucc below =>
      have signed : line =
          gap.digits.before ++ (Decimal.ofNat (below + 1) ++ (suffix ++ gap.digits.after)) := by
        rw [shape, Decimal.ofInt, List.append_assoc, SignedGap.digits, List.append_assoc]
      rw [gap.digits.tokens_literal line _ suffix mark signed]
      simp [intTokens, SignedGap.digits]

end

end StackMachine.Source

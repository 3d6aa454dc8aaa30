import StackMachine.Proofs.Source.Block
import StackMachine.Proofs.Source.Reader

/-!
# Python text

The part of Python's grammar that rendered programs are written in. A line is read into the trees of
the renderer with Python's own precedences: a minus sign binds its operand tighter than any binary
operator, comparisons come after arithmetic, and a conditional expression is the loosest of all.
Blocks are found from the columns at which the lines start.
-/

namespace StackMachine.Python

open StackMachine.Render.Python StackMachine.Source

set_option autoImplicit false

/-- The words that these lines use, apart from any other. -/
inductive Word where
  | var (name : Var)
  | defWord | whileWord | ifWord | elifWord | elseWord | returnWord | notWord | trueWord
  | abs | len | wrap | truncDiv | append | pop
  | int | list | tuple
  | other (text : Text)
deriving DecidableEq, Repr

namespace Word

def text : Word → Text
  | .var name => name.text
  | .defWord => "def"
  | .whileWord => "while"
  | .ifWord => "if"
  | .elifWord => "elif"
  | .elseWord => "else"
  | .returnWord => "return"
  | .notWord => "not"
  | .trueWord => "True"
  | .abs => "abs"
  | .len => "len"
  | .wrap => "_wrap"
  | .truncDiv => "_tdiv"
  | .append => "append"
  | .pop => "pop"
  | .int => "int"
  | .list => "list"
  | .tuple => "tuple"
  | .other text => text

def known : List Word :=
  [.var .xs, .var .stack, .var .pc, .var .steps, .var .a, .var .b, .var .c, .var .v, .var .q,
    .defWord, .whileWord, .ifWord, .elifWord, .elseWord, .returnWord, .notWord, .trueWord, .abs,
    .len, .wrap, .truncDiv, .append, .pop, .int, .list, .tuple]

def ofText (text : Text) : Word := (known.find? fun word => word.text = text).getD (.other text)

theorem text_of_text (text : Text) : (ofText text).text = text := by
  rw [ofText]
  cases found : known.find? fun word => word.text = text with
  | none => rfl
  | some word => simpa using List.find?_some found

end Word

abbrev Tokens := List (Token Word)

def lexicon : Lexicon Word where
  symbols :=
    [.openParen, .closeParen, .openBracket, .closeBracket, .comma, .colon, .dot, .assign, .plus,
      .minus, .star, .slash, .percent, .ampersand, .eq, .ne, .lt, .le, .gt, .ge, .plusAssign,
      .andAssign, .floorDiv, .arrow]
  word := Word.ofText

def hexDigit? (byte : UInt8) : Option Nat :=
  if Text.isDigit byte then some (byte.toNat - 48)
  else if 65 ≤ byte ∧ byte ≤ 70 then some (byte.toNat - 55)
  else none

def hexadecimal? : Text → Option Nat
  | 120 :: first :: rest =>
      (first :: rest).foldl
        (fun total byte => total.bind fun total =>
          (hexDigit? byte).map fun digit => 16 * total + digit)
        (some 0)
  | _ => none

def atom (inner : Reader Word Expr) : Reader Word Expr
  | .number value [] :: rest => some (.int value, rest)
  | .number 0 suffix :: rest => (hexadecimal? suffix).map fun value => (.hex value, rest)
  | .word .trueWord :: rest => some (.true, rest)
  | .symbol .openParen :: rest => (inner.upTo .closeParen).mapped .group rest
  | .word .abs :: .symbol .openParen :: rest => (inner.upTo .closeParen).mapped .abs rest
  | .word .wrap :: .symbol .openParen :: rest => (inner.upTo .closeParen).mapped .wrap rest
  | .word .truncDiv :: .symbol .openParen :: rest =>
      inner.pairUpTo .comma .closeParen .truncDiv rest
  | .word .len :: .symbol .openParen :: .word (.var list) :: .symbol .closeParen :: rest =>
      some (.length list, rest)
  | .word (.var list) :: .symbol .dot :: .word .pop :: .symbol .openParen ::
      .symbol .closeParen :: rest => some (.removeLast list, rest)
  | .word (.var list) :: .symbol .openBracket :: rest =>
      (inner.upTo .closeBracket).mapped (.element list) rest
  | .word (.var name) :: rest => some (.var name, rest)
  | _ => none

def negated : Expr → Expr
  | .int value => .int (-value)
  | operand => .neg operand

def factor (inner : Reader Word Expr) : Reader Word Expr
  | .symbol .minus :: rest => (atom inner).mapped negated rest
  | tokens => atom inner tokens

def productJoin : Symbol → Option (Expr → Expr → Expr)
  | .star => some (.arith .mul)
  | .floorDiv => some (.arith .floorDiv)
  | .percent => some (.arith .mod)
  | _ => none

def sumJoin : Symbol → Option (Expr → Expr → Expr)
  | .plus => some (.arith .add)
  | .minus => some (.arith .sub)
  | _ => none

def relationJoin : Symbol → Option (Expr → Expr → Expr)
  | .eq => some (.compare .eq)
  | .ne => some (.compare .ne)
  | .lt => some (.compare .lt)
  | .gt => some (.compare .gt)
  | .ge => some (.compare .ge)
  | _ => none

def comparison (inner : Reader Word Expr) : Reader Word Expr :=
  .level relationJoin (.level sumJoin (.level productJoin (factor inner)))

def negation (inner : Reader Word Expr) : Reader Word Expr
  | .word .notWord :: .word (.var list) :: rest => some (.isEmpty list, rest)
  | tokens => comparison inner tokens

def conditional (inner : Reader Word Expr) : Reader Word Expr := fun tokens =>
  (negation inner tokens).bind fun (value, rest) =>
    match rest with
    | .word .ifWord :: rest =>
        (negation inner rest).bind fun (test, rest) =>
          match rest with
          | .word .elseWord :: rest => inner.mapped (.conditional value test) rest
          | _ => none
    | _ => some (value, rest)

/-- Expressions with less than the given depth. -/
def expressionWithin : Nat → Reader Word Expr
  | 0 => fun _ => none
  | depth + 1 => conditional (expressionWithin depth)

/-- No expression is deeper than it is long. -/
def expression : Reader Word Expr := fun tokens => expressionWithin (tokens.length + 1) tokens

structure Head where
  name : Text
  parameters : List Var
deriving DecidableEq, Repr

abbrev Line := Event Simple Expr Head

/-- The words that Python keeps for itself. -/
def keywords : List Text :=
  List.map Text.ascii
    ["False", "None", "True", "and", "as", "assert", "async", "await", "break", "class", "continue",
      "def", "del", "elif", "else", "except", "finally", "for", "from", "global", "if", "import",
      "in", "is", "lambda", "nonlocal", "not", "or", "pass", "raise", "return", "try", "while",
      "with", "yield"]

/-- A constant that is no keyword, although a program may not bind it. -/
def debugConstant : Text := "__debug__"

/-- The functions that an expression may call without defining them. -/
def builtins : List Text := [Word.abs.text, Word.len.text]

/-- The names that a definition may bind. One that hides a function called here is not read. -/
def isBindable (name : Text) : Bool :=
  !keywords.contains name && name != debugConstant && !builtins.contains name

def annotation? : Tokens → Option Tokens
  | .word .int :: rest => some rest
  | .word .list :: .symbol .openBracket :: .word .int :: .symbol .closeBracket :: rest => some rest
  | .word .tuple :: .symbol .openBracket :: .word .int :: .symbol .comma :: .word .int ::
      .symbol .closeBracket :: rest => some rest
  | _ => none

def parametersWithin : Nat → Reader Word (List Var)
  | 0, _ => none
  | count + 1, .word (.var name) :: .symbol .colon :: rest =>
      (annotation? rest).bind fun rest =>
        match rest with
        | .symbol .closeParen :: rest => some ([name], rest)
        | .symbol .comma :: rest => (Reader.mapped (name :: ·) (parametersWithin count)) rest
        | _ => none
  | _, _ => none

def head? (name : Word) (tokens : Tokens) : Option Head :=
  (parametersWithin tokens.length tokens).bind fun (parameters, rest) =>
    match rest with
    | .symbol .arrow :: rest =>
        if isBindable name.text ∧ annotation? rest = some [.symbol .colon] then
          some ⟨name.text, parameters⟩
        else none
    | _ => none

def exchange? (tokens : Tokens) : Option Simple :=
  match expression.upTo .comma tokens with
  | some (.element list first, rest) =>
      match expression.upTo .assign rest with
      | some (.element other second, rest) =>
          if other = list ∧ expression.pairUpTo .comma .colon Prod.mk (rest ++ [.symbol .colon]) =
              some ((.element list second, .element list first), []) then
            some (.exchange list first second)
          else none
      | _ => none
  | _ => none

def simple? : Tokens → Option Simple
  | .word .returnWord :: .symbol .openParen :: .number code [] :: .symbol .comma :: rest =>
      ((expression.upTo .closeParen).whole rest).bind fun value =>
        (Status.ofCode? code).map fun status => .answer status value
  | .word .returnWord :: rest => (expression.whole rest).map .ret
  | [.word (.var name), .symbol .colon, .word .list, .symbol .openBracket, .word .int,
      .symbol .closeBracket, .symbol .assign, .symbol .openBracket, .symbol .closeBracket] =>
      some (.emptyList name)
  | [.word (.var name), .symbol .plusAssign, .number 1 []] => some (.increment name)
  | .word (.var name) :: .symbol .assign :: rest => (expression.whole rest).map (.assign name)
  | .word (.var name) :: .symbol .andAssign :: rest => (expression.whole rest).map (.mask name)
  | .word (.var list) :: .symbol .dot :: .word .append :: .symbol .openParen :: rest =>
      ((expression.upTo .closeParen).whole rest).map (.append list)
  | tokens => (exchange? tokens).orElse fun _ => (expression.whole tokens).map .discard

def test? (tokens : Tokens) : Option Expr := (expression.upTo .colon).whole tokens

def line? : Tokens → Option Line
  | .word .defWord :: .word name :: .symbol .openParen :: rest => (head? name rest).map .define
  | .word .whileWord :: rest => (test? rest).map .loop
  | .word .ifWord :: rest => (test? rest).map .branch
  | .word .elifWord :: rest => (test? rest).map .orBranch
  | [.word .elseWord, .symbol .colon] => some .otherwise
  | tokens => (simple? tokens).map .simple

/-- A line with the column where it starts. -/
structure Item where
  column : Nat
  line : Line
deriving DecidableEq, Repr

/-- A row without tokens is no line. -/
def row? (text : Text) : Option (Option Item) :=
  (lexicon.tokens text).bind fun tokens =>
    if tokens = [] then some none
    else (line? tokens).map fun line => some ⟨(text.takeWhile (· == blank)).length, line⟩

def Line.opens : Line → Bool
  | .simple _ | .close => false
  | .branch _ | .orBranch _ | .otherwise | .loop _ | .define _ => true

/-- Closes blocks where the lines leave their columns. The columns of the open blocks come innermost
first; after a line that opens a block the next one has to start further right. -/
def layout : Bool → List Nat → List Item → Option (List Line)
  | true, _, [] => none
  | false, columns, [] => some (List.replicate (columns.length - 1) .close)
  | true, columns, item :: rest =>
      if ∀ column ∈ columns.head?, column < item.column then
        (layout (Line.opens item.line) (item.column :: columns) rest).map fun lines =>
          item.line :: lines
      else none
  | false, columns, item :: rest =>
      let left := columns.takeWhile (item.column < ·)
      let kept := columns.dropWhile (item.column < ·)
      if kept.head? = some item.column then
        (layout (Line.opens item.line) kept rest).map fun lines =>
          left.map (fun _ => .close) ++ item.line :: lines
      else none

/-- The code that a text spells. -/
def read (text : Text) : Option (Code Simple Expr Head) :=
  ((Text.lines text).mapM row?).bind fun items =>
    (layout false [0] (items.filterMap id)).bind assemble

end StackMachine.Python

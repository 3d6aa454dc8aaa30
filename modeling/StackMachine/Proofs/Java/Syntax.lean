import Mathlib.Algebra.Group.Int.Defs
import Mathlib.Algebra.Group.Nat.Defs
import StackMachine.Proofs.Source.Block
import StackMachine.Proofs.Source.Reader

/-!
# Java text

The part of Java's grammar that rendered methods are written in, read into the trees of the renderer
with Java's own precedences: casts and signs bind tightest, then the arithmetic levels, comparisons,
equality, and last the conditional operator. The digits of a literal have to fit its type.
-/

namespace StackMachine.Java

open StackMachine.Render.Java StackMachine.Source

set_option autoImplicit false

/-- The words that these lines use, apart from any other. -/
inductive Word where
  | var (name : Var)
  | publicWord | staticWord | longWord | intWord | newWord | whileWord | ifWord | elseWord
  | returnWord | length | math | abs | floorMod | longClass | minValue | java | util | arrays
  | copyOf
  | other (text : Text)
deriving DecidableEq, Repr

namespace Word

def text : Word → Text
  | .var name => name.text
  | .publicWord => "public"
  | .staticWord => "static"
  | .longWord => "long"
  | .intWord => "int"
  | .newWord => "new"
  | .whileWord => "while"
  | .ifWord => "if"
  | .elseWord => "else"
  | .returnWord => "return"
  | .length => "length"
  | .math => "Math"
  | .abs => "abs"
  | .floorMod => "floorMod"
  | .longClass => "Long"
  | .minValue => "MIN_VALUE"
  | .java => "java"
  | .util => "util"
  | .arrays => "Arrays"
  | .copyOf => "copyOf"
  | .other text => text

def known : List Word :=
  [.var .xs, .var .stack, .var .sp, .var .pc, .var .steps, .var .a, .var .b, .var .c, .var .t,
    .publicWord, .staticWord, .longWord, .intWord, .newWord, .whileWord, .ifWord, .elseWord,
    .returnWord, .length, .math, .abs, .floorMod, .longClass, .minValue, .java, .util, .arrays,
    .copyOf]

def ofText (text : Text) : Word := (known.find? fun word => word.text = text).getD (.other text)

theorem text_of_text (text : Text) : (ofText text).text = text := by
  rw [ofText]
  cases found : known.find? fun word => word.text = text with
  | none => rfl
  | some word => simpa using List.find?_some found

end Word

abbrev Tokens := List (Token Word)

def lexicon : Lexicon Word where
  symbols :=
    [.openParen, .closeParen, .openBracket, .closeBracket, .openBrace, .closeBrace, .comma, .colon,
      .semicolon, .dot, .question, .assign, .plus, .minus, .star, .slash, .percent, .eq, .ne, .lt,
      .le, .gt, .ge, .plusAssign, .increment, .decrement]
  word := Word.ofText

def wideMark : Text := "L"

def literalFits : Token Word → Bool
  | .number value suffix =>
      if suffix = [] then value < 2 ^ 31 else suffix == wideMark && value < 2 ^ 63
  | .word _ | .symbol _ => true

def marked (value : Int) (suffix : Text) : Expr :=
  if suffix = [] then .int value else .long (Int64.ofInt value)

def atom (inner : Reader Word Expr) : Reader Word Expr
  | .number value suffix :: rest => some (marked value suffix, rest)
  | .word .longClass :: .symbol .dot :: .word .minValue :: rest =>
      some (.long Int64.minValue, rest)
  | .symbol .openParen :: rest => (inner.upTo .closeParen).mapped .group rest
  | .word .math :: .symbol .dot :: .word .abs :: .symbol .openParen :: rest =>
      (inner.upTo .closeParen).mapped .abs rest
  | .word .math :: .symbol .dot :: .word .floorMod :: .symbol .openParen :: rest =>
      inner.pairUpTo .comma .closeParen .floorMod rest
  | .word .java :: .symbol .dot :: .word .util :: .symbol .dot :: .word .arrays :: .symbol .dot ::
      .word .copyOf :: .symbol .openParen :: .word (.var array) :: .symbol .comma :: rest =>
      (inner.upTo .closeParen).mapped (.copyOf array) rest
  | .word (.var array) :: .symbol .dot :: .word .length :: rest => some (.length array, rest)
  | .word (.var array) :: .symbol .openBracket :: rest =>
      (inner.upTo .closeBracket).mapped (.element array) rest
  | .word (.var name) :: .symbol .increment :: rest => some (.raised name, rest)
  | .word (.var name) :: rest => some (.var name, rest)
  | _ => none

def signed (inner : Reader Word Expr) : Reader Word Expr
  | .symbol .minus :: .number value suffix :: rest => some (marked (-value) suffix, rest)
  | .symbol .minus :: rest => (atom inner).mapped .neg rest
  | .symbol .decrement :: .word (.var name) :: rest => some (.lowered name, rest)
  | tokens => atom inner tokens

def cast (inner : Reader Word Expr) : Reader Word Expr
  | .symbol .openParen :: .word .intWord :: .symbol .closeParen :: rest =>
      (signed inner).mapped .toInt rest
  | .symbol .openParen :: .word .longWord :: .symbol .closeParen :: rest =>
      (signed inner).mapped .toLong rest
  | tokens => signed inner tokens

def productJoin : Symbol → Option (Expr → Expr → Expr)
  | .star => some (.arith .mul)
  | .slash => some (.arith .div)
  | .percent => some (.arith .mod)
  | _ => none

def sumJoin : Symbol → Option (Expr → Expr → Expr)
  | .plus => some (.arith .add)
  | .minus => some (.arith .sub)
  | _ => none

def relationJoin : Symbol → Option (Expr → Expr → Expr)
  | .lt => some (.compare .lt)
  | .gt => some (.compare .gt)
  | .ge => some (.compare .ge)
  | _ => none

def equalityJoin : Symbol → Option (Expr → Expr → Expr)
  | .eq => some (.compare .eq)
  | .ne => some (.compare .ne)
  | _ => none

def equality (inner : Reader Word Expr) : Reader Word Expr :=
  .level equalityJoin (.level relationJoin (.level sumJoin (.level productJoin (cast inner))))

def conditional (inner : Reader Word Expr) : Reader Word Expr := fun tokens =>
  (equality inner tokens).bind fun (test, rest) =>
    match rest with
    | .symbol .question :: rest =>
        (inner.upTo .colon rest).bind fun (value, rest) =>
          inner.mapped (.choice test value) rest
    | _ => some (test, rest)

/-- Expressions with less than the given depth. -/
def expressionWithin : Nat → Reader Word Expr
  | 0 => fun _ => none
  | depth + 1 => conditional (expressionWithin depth)

/-- No expression is deeper than it is long. -/
def expression : Reader Word Expr := fun tokens => expressionWithin (tokens.length + 1) tokens

/-- A statement of one line: one of the loop, or the declaration of a variable before it. -/
inductive Statement where
  | plain (stmt : Simple)
  | initial (declaration : Declaration)
deriving DecidableEq, Repr

structure Head where
  name : Text
  parameter : Var
deriving DecidableEq, Repr

abbrev Line := Event Statement Expr Head

/-- The words that Java keeps for itself, with the literals that look like names. -/
def keywords : List Text :=
  List.map Text.ascii
    ["abstract", "assert", "boolean", "break", "byte", "case", "catch", "char", "class", "const",
      "continue", "default", "do", "double", "else", "enum", "extends", "final", "finally", "float",
      "for", "goto", "if", "implements", "import", "instanceof", "int", "interface", "long",
      "native", "new", "package", "private", "protected", "public", "return", "short", "static",
      "strictfp", "super", "switch", "synchronized", "this", "throw", "throws", "transient", "try",
      "void", "volatile", "while", "true", "false", "null", "_"]

def simple? : Tokens → Option Statement
  | .word .returnWord :: .word .newWord :: .word .longWord :: .symbol .openBracket ::
      .symbol .closeBracket :: .symbol .openBrace :: .number code suffix :: .symbol .comma ::
      rest =>
      (expression.upTo .closeBrace rest).bind fun (value, rest) =>
        if suffix = wideMark ∧ rest = [.symbol .semicolon] then
          (Status.ofCode? code).map fun status => .plain (.answer status value)
        else none
  | [.word .longWord, .symbol .openBracket, .symbol .closeBracket, .word (.var name),
      .symbol .assign, .word .newWord, .word .longWord, .symbol .openBracket, .number size [],
      .symbol .closeBracket, .symbol .semicolon] =>
      some (.initial (.array name size))
  | [.word .intWord, .word (.var name), .symbol .assign, .number value [], .symbol .semicolon] =>
      some (.initial (.int name value))
  | .word .longWord :: .word (.var name) :: .symbol .assign :: rest =>
      ((expression.upTo .semicolon).whole rest).map fun value => .plain (.declare name value)
  | [.word (.var name), .symbol .increment, .symbol .semicolon] => some (.plain (.increment name))
  | [.word (.var name), .symbol .decrement, .symbol .semicolon] => some (.plain (.decrement name))
  | .word (.var name) :: .symbol .assign :: rest =>
      ((expression.upTo .semicolon).whole rest).map fun value => .plain (.assign name value)
  | .word (.var array) :: .symbol .openBracket :: rest =>
      (expression.upTo .closeBracket rest).bind fun (index, rest) =>
        (Reader.expect .assign rest).bind fun rest =>
          ((expression.upTo .semicolon).whole rest).map fun value =>
            .plain (.store array index value)
  | _ => none

def test? (tokens : Tokens) : Option Expr :=
  (Reader.expect .openParen tokens).bind fun rest =>
    (expression.upTo .closeParen rest).bind fun (test, rest) =>
      if rest = [.symbol .openBrace] then some test else none

def line? : Tokens → Option (List Line)
  | [.word .publicWord, .word .staticWord, .word .longWord, .symbol .openBracket,
      .symbol .closeBracket, .word name, .symbol .openParen, .word .longWord, .symbol .openBracket,
      .symbol .closeBracket, .word (.var parameter), .symbol .closeParen, .symbol .openBrace] =>
      if keywords.contains name.text then none else some [.define ⟨name.text, parameter⟩]
  | .word .whileWord :: rest => (test? rest).map fun test => [.loop test]
  | .word .ifWord :: rest => (test? rest).map fun test => [.branch test]
  | [.symbol .closeBrace] => some [.close]
  | [.symbol .closeBrace, .word .elseWord, .symbol .openBrace] => some [.close, .otherwise]
  | .symbol .closeBrace :: .word .elseWord :: .word .ifWord :: rest =>
      (test? rest).map fun test => [.close, .orBranch test]
  | tokens => (simple? tokens).map fun stmt => [.simple stmt]

def row? (text : Text) : Option (List Line) :=
  (lexicon.tokens text).bind fun tokens =>
    if tokens.all literalFits then line? tokens else none

/-- The code that a text spells. -/
def read (text : Text) : Option (Code Statement Expr Head) :=
  (((Text.lines text).mapM row?).map List.flatten).bind assemble

end StackMachine.Java

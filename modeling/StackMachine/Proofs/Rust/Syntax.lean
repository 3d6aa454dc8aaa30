import StackMachine.Proofs.Source.Block
import StackMachine.Proofs.Source.Reader

/-!
# Rust text

The part of Rust's grammar that rendered functions are written in, read into the trees of the
renderer with Rust's own precedences: method calls and indexing bind tightest, then signs, casts,
differences and comparisons. A sign in front of a method call would belong to its result, so a signed
receiver has to stand in parentheses.
-/

namespace StackMachine.Rust

open StackMachine.Render.Rust StackMachine.Source

set_option autoImplicit false

/-- The words that these lines use, apart from any other. -/
inductive Word where
  | var (name : Var)
  | fnWord | letWord | mutWord | whileWord | matchWord | ifWord | elseWord | returnWord | asWord
  | i64Type | usizeType | vecType | newCall | len | isEmpty | pop | push | swap | unwrap
  | wrapping (method : Wrapping)
  | wrappingNeg | wrappingAbs | remEuclid | minimum | allow | wildcard
  | other (text : Text)
deriving DecidableEq, Repr

namespace Word

def text : Word → Text
  | .var name => name.text
  | .fnWord => "fn"
  | .letWord => "let"
  | .mutWord => "mut"
  | .whileWord => "while"
  | .matchWord => "match"
  | .ifWord => "if"
  | .elseWord => "else"
  | .returnWord => "return"
  | .asWord => "as"
  | .i64Type => "i64"
  | .usizeType => "usize"
  | .vecType => "Vec"
  | .newCall => "new"
  | .len => "len"
  | .isEmpty => "is_empty"
  | .pop => "pop"
  | .push => "push"
  | .swap => "swap"
  | .unwrap => "unwrap"
  | .wrapping .add => "wrapping_add"
  | .wrapping .sub => "wrapping_sub"
  | .wrapping .mul => "wrapping_mul"
  | .wrapping .div => "wrapping_div"
  | .wrapping .rem => "wrapping_rem"
  | .wrappingNeg => "wrapping_neg"
  | .wrappingAbs => "wrapping_abs"
  | .remEuclid => "rem_euclid"
  | .minimum => "MIN"
  | .allow => "allow"
  | .wildcard => "_"
  | .other text => text

def known : List Word :=
  [.var .xs, .var .stack, .var .pc, .var .steps, .var .a, .var .b, .var .c, .var .n, .var .i,
    .fnWord, .letWord, .mutWord, .whileWord, .matchWord, .ifWord, .elseWord, .returnWord, .asWord,
    .i64Type, .usizeType, .vecType, .newCall, .len, .isEmpty, .pop, .push, .swap, .unwrap,
    .wrapping .add, .wrapping .sub, .wrapping .mul, .wrapping .div, .wrapping .rem, .wrappingNeg,
    .wrappingAbs, .remEuclid, .minimum, .allow, .wildcard]

def ofText (text : Text) : Word := (known.find? fun word => word.text = text).getD (.other text)

theorem text_of_text (text : Text) : (ofText text).text = text := by
  rw [ofText]
  cases found : known.find? fun word => word.text = text with
  | none => rfl
  | some word => simpa using List.find?_some found

end Word

abbrev Tokens := List (Token Word)

def lexicon : Lexicon Word where
  symbols :=
    [.openParen, .closeParen, .openBracket, .closeBracket, .openBrace, .closeBrace, .comma, .colon,
      .semicolon, .dot, .question, .hash, .ampersand, .assign, .plus, .minus, .star, .slash,
      .percent, .eq, .ne, .lt, .le, .gt, .ge, .plusAssign, .arrow, .fatArrow, .path]
  word := Word.ofText

def typeMark : Text := "i64"

def marked (value : Int) (suffix : Text) : Option Expr :=
  if suffix = [] then some (.int value)
  else if suffix = typeMark then some (.typedInt value)
  else none

def atom (inner : Reader Word Expr) : Reader Word Expr
  | .number value suffix :: rest => (marked value suffix).map fun literal => (literal, rest)
  | .word .i64Type :: .symbol .path :: .word .minimum :: rest => some (.minimum, rest)
  | .symbol .openParen :: rest => (inner.upTo .closeParen).mapped .group rest
  | .word (.var list) :: .symbol .dot :: .word .len :: .symbol .openParen :: .symbol .closeParen ::
      rest => some (.length list, rest)
  | .word (.var list) :: .symbol .dot :: .word .isEmpty :: .symbol .openParen ::
      .symbol .closeParen :: rest => some (.isEmpty list, rest)
  | .word (.var list) :: .symbol .dot :: .word .pop :: .symbol .openParen :: .symbol .closeParen ::
      rest => some (.pop list, rest)
  | .word (.var list) :: .symbol .openBracket :: rest =>
      (inner.upTo .closeBracket).mapped (.element list) rest
  | .word (.var name) :: rest => some (.var name, rest)
  | _ => none

def called (inner : Reader Word Expr) (receiver : Expr) : Reader Word Expr
  | .symbol .dot :: .word .unwrap :: .symbol .openParen :: .symbol .closeParen :: rest =>
      some (.unwrap receiver, rest)
  | .symbol .dot :: .word .wrappingNeg :: .symbol .openParen :: .symbol .closeParen :: rest =>
      some (.wrappingNeg receiver, rest)
  | .symbol .dot :: .word .wrappingAbs :: .symbol .openParen :: .symbol .closeParen :: rest =>
      some (.wrappingAbs receiver, rest)
  | .symbol .dot :: .word (.wrapping method) :: .symbol .openParen :: rest =>
      (inner.upTo .closeParen).mapped (.wrapping method receiver) rest
  | .symbol .dot :: .word .remEuclid :: .symbol .openParen :: rest =>
      (inner.upTo .closeParen).mapped (.remEuclid receiver) rest
  | tokens => some (receiver, tokens)

def signed (inner : Reader Word Expr) : Reader Word Expr
  | .symbol .minus :: .number _ _ :: .symbol .dot :: _ => none
  | .symbol .minus :: .number value suffix :: rest =>
      (marked (-value) suffix).map fun literal => (literal, rest)
  | tokens => (atom inner tokens).bind fun (receiver, rest) => called inner receiver rest

def cast (inner : Reader Word Expr) : Reader Word Expr := fun tokens =>
  (signed inner tokens).map fun (operand, rest) =>
    match rest with
    | .word .asWord :: .word .i64Type :: rest => (.toI64 operand, rest)
    | .word .asWord :: .word .usizeType :: rest => (.toUsize operand, rest)
    | _ => (operand, rest)

def differenceJoin : Symbol → Option (Expr → Expr → Expr)
  | .minus => some .sub
  | _ => none

def relationJoin : Symbol → Option (Expr → Expr → Expr)
  | .eq => some (.compare .eq)
  | .ne => some (.compare .ne)
  | .lt => some (.compare .lt)
  | .gt => some (.compare .gt)
  | .le => some (.compare .le)
  | _ => none

def comparison (inner : Reader Word Expr) : Reader Word Expr :=
  .level relationJoin (.level differenceJoin (cast inner))

def conditional (inner : Reader Word Expr) : Reader Word Expr
  | .word .ifWord :: rest =>
      ((comparison inner).upTo .openBrace rest).bind fun (test, rest) =>
        (inner.upTo .closeBrace rest).bind fun (value, rest) =>
          match rest with
          | .word .elseWord :: .symbol .openBrace :: rest =>
              (inner.upTo .closeBrace).mapped (.choice test value) rest
          | _ => none
  | tokens => comparison inner tokens

/-- Expressions with less than the given depth. -/
def expressionWithin : Nat → Reader Word Expr
  | 0 => fun _ => none
  | depth + 1 => conditional (expressionWithin depth)

/-- No expression is deeper than it is long. -/
def expression : Reader Word Expr := fun tokens => expressionWithin (tokens.length + 1) tokens

/-- A statement of one line: one of the loop, or the declaration of a variable before it. -/
inductive Statement where
  | plain (stmt : Simple)
  | initial (declaration : Declaration)
deriving DecidableEq, Repr

structure Head where
  name : Text
  parameter : Var
deriving DecidableEq, Repr

/-- What a line says. The lines of a match are apart, since the first of its arms is not spelled
differently from the others. -/
inductive Line where
  | event (event : Event Statement Expr Head)
  | matchOn (subject : Var)
  | arm (number : Nat)
  | otherArm
  /-- The value of a function, as its last expression. -/
  | last (status : Status) (value : Expr)
deriving DecidableEq, Repr

/-- The words that Rust keeps for itself. -/
def keywords : List Text :=
  List.map Text.ascii
    ["as", "async", "await", "break", "const", "continue", "crate", "dyn", "else", "enum", "extern",
      "false", "fn", "for", "if", "impl", "in", "let", "loop", "match", "mod", "move", "mut", "pub",
      "ref", "return", "self", "Self", "static", "struct", "super", "trait", "true", "type",
      "unsafe", "use", "where", "while", "abstract", "become", "box", "do", "final", "macro",
      "override", "priv", "typeof", "unsized", "virtual", "yield", "try", "gen", "_"]

def resultPair : Reader Word (Status × Expr)
  | .symbol .openParen :: .number code [] :: .symbol .comma :: rest =>
      (Status.ofCode? code).bind fun status =>
        (expression.upTo .closeParen).mapped (fun value => (status, value)) rest
  | _ => none

def ended (tokens : Tokens) : Option Expr := (expression.upTo .semicolon).whole tokens

def simple? : Tokens → Option Statement
  | [.word .letWord, .word .mutWord, .word (.var name), .symbol .colon, .word .vecType, .symbol .lt,
      .word .i64Type, .symbol .gt, .symbol .assign, .word .vecType, .symbol .path, .word .newCall,
      .symbol .openParen, .symbol .closeParen, .symbol .semicolon] =>
      some (.initial (.emptyVec name))
  | [.word .letWord, .word .mutWord, .word (.var name), .symbol .colon, .word .usizeType,
      .symbol .assign, .number value [], .symbol .semicolon] => some (.initial (.usize name value))
  | [.word .letWord, .word .mutWord, .word (.var name), .symbol .colon, .word .i64Type,
      .symbol .assign, .number value [], .symbol .semicolon] => some (.initial (.i64 name value))
  | .word .letWord :: .word .wildcard :: .symbol .assign :: rest =>
      (ended rest).map fun value => .plain (.discard value)
  | .word .letWord :: .word (.var name) :: .symbol .assign :: rest =>
      (ended rest).map fun value => .plain (.bind name value)
  | .word .returnWord :: rest =>
      ((resultPair.upTo .semicolon).whole rest).map fun (status, value) => .plain (.answer status value)
  | .word (.var name) :: .symbol .assign :: rest =>
      (ended rest).map fun value => .plain (.assign name value)
  | [.word (.var name), .symbol .plusAssign, .number 1 [], .symbol .semicolon] =>
      some (.plain (.increment name))
  | .word (.var list) :: .symbol .dot :: .word .push :: .symbol .openParen :: rest =>
      (expression.upTo .closeParen rest).bind fun (value, rest) =>
        if rest = [.symbol .semicolon] then some (.plain (.push list value)) else none
  | .word (.var list) :: .symbol .dot :: .word .swap :: .symbol .openParen :: rest =>
      (expression.pairUpTo .comma .closeParen (.swap list) rest).bind fun (stmt, rest) =>
        if rest = [.symbol .semicolon] then some (.plain stmt) else none
  | _ => none

def test? (tokens : Tokens) : Option Expr := (expression.upTo .openBrace).whole tokens

def line? : Tokens → Option (List Line)
  | [.word .fnWord, .word name, .symbol .openParen, .word (.var parameter), .symbol .colon,
      .symbol .ampersand, .symbol .openBracket, .word .i64Type, .symbol .closeBracket,
      .symbol .closeParen, .symbol .arrow, .symbol .openParen, .word .i64Type, .symbol .comma,
      .word .i64Type, .symbol .closeParen, .symbol .openBrace] =>
      if keywords.contains name.text then none
      else some [.event (.define ⟨name.text, parameter⟩)]
  | .word .whileWord :: rest => (test? rest).map fun test => [.event (.loop test)]
  | .word .ifWord :: rest => (test? rest).map fun test => [.event (.branch test)]
  | [.word .matchWord, .word (.var subject), .symbol .openBrace] => some [.matchOn subject]
  | [.number number [], .symbol .fatArrow, .symbol .openBrace] => some [.arm number]
  | [.word .wildcard, .symbol .fatArrow, .symbol .openBrace] => some [.otherArm]
  | [.symbol .closeBrace] => some [.event .close]
  | [.symbol .closeBrace, .word .elseWord, .symbol .openBrace] =>
      some [.event .close, .event .otherwise]
  | [.symbol .hash, .symbol .openBracket, .word .allow, .symbol .openParen, .word _, .symbol .comma,
      .word _, .symbol .comma, .word _, .symbol .comma, .word _, .symbol .closeParen,
      .symbol .closeBracket] => some []
  | .symbol .openParen :: rest =>
      (resultPair.whole (.symbol .openParen :: rest)).map fun (status, value) => [.last status value]
  | tokens => (simple? tokens).map fun stmt => [.event (.simple stmt)]

def row? (text : Text) : Option (List Line) := (lexicon.tokens text).bind line?

end StackMachine.Rust

/-!
Text is a list of bytes. Nothing is assumed about its encoding: a byte above 127 is an ordinary
byte that belongs to no character class, and so is the byte zero.
-/

namespace StackMachine

set_option autoImplicit false

abbrev Text := List UInt8

namespace Text

/-- Literals of this library are ASCII, where a character is its own byte. -/
def ascii (literal : String) : Text := literal.toList.map fun char => char.toNat.toUInt8

instance : Coe String Text := ⟨ascii⟩

def newline : UInt8 := 10

/-- Blank, tab, line feed, vertical tab, form feed and carriage return. -/
def isSpace (byte : UInt8) : Bool := byte == 32 || (9 ≤ byte && byte ≤ 13)

def isDigit (byte : UInt8) : Bool := 48 ≤ byte && byte ≤ 57

def isLetter (byte : UInt8) : Bool := (65 ≤ byte && byte ≤ 90) || (97 ≤ byte && byte ≤ 122)

/-- Drops white space at both ends. -/
def trim (text : Text) : Text :=
  ((text.dropWhile isSpace).reverse.dropWhile isSpace).reverse

/-- The pieces between the separators, one more than there are separators. `pending` holds the
bytes of the current piece, latest first. -/
def splitFrom (separator : UInt8) (pending : Text) : Text → List Text
  | [] => [pending.reverse]
  | byte :: rest =>
      if byte = separator then pending.reverse :: splitFrom separator [] rest
      else splitFrom separator (byte :: pending) rest

def split (separator : UInt8) (text : Text) : List Text := splitFrom separator [] text

/-- The lines of a text. A newline ends a line, so an empty piece after the last one is no line. -/
def lines (text : Text) : List Text :=
  let pieces := split newline text
  if pieces.getLast? = some [] then pieces.dropLast else pieces

/-- Writes `separator` between the pieces. -/
def join (separator : Text) (pieces : List Text) : Text := (pieces.intersperse separator).flatten

end Text

end StackMachine

import StackMachine.Render.Java
import StackMachine.Render.Python
import StackMachine.Render.Rust

/-!
The target languages, the function names that each of them admits, and rendering. A valid name is an
ASCII identifier that is neither a variable of the rendered body nor a word that the language or the
body uses for itself.
-/

namespace StackMachine.Render

set_option autoImplicit false

inductive Language where
  | python | java | rust
deriving DecidableEq, Repr

/-- The variables that every rendered body may use. -/
def bodyNames : List Text :=
  List.map Text.ascii
    ["_", "xs", "stack", "sp", "pc", "steps"]

def pythonWords : List Text :=
  List.map Text.ascii
    ["False", "None", "True", "and", "as", "assert", "async", "await", "break", "class", "continue",
      "def", "del", "elif", "else", "except", "finally", "for", "from", "global", "if", "import",
      "in", "is", "lambda", "nonlocal", "not", "or", "pass", "raise", "return", "try", "while",
      "with", "yield", "len", "abs", "list", "int", "tuple", "_wrap", "_tdiv"]

def javaWords : List Text :=
  List.map Text.ascii
    ["abstract", "assert", "boolean", "break", "byte", "case", "catch", "char", "class", "const",
      "continue", "default", "do", "double", "else", "enum", "extends", "final", "finally", "float",
      "for", "goto", "if", "implements", "import", "instanceof", "int", "interface", "long",
      "native", "new", "package", "private", "protected", "public", "return", "short", "static",
      "strictfp", "super", "switch", "synchronized", "this", "throw", "throws", "transient", "try",
      "void", "volatile", "while", "true", "false", "null", "var", "yield", "record", "Math",
      "Long", "java"]

def rustWords : List Text :=
  List.map Text.ascii
    ["as", "async", "await", "break", "const", "continue", "crate", "dyn", "else", "enum", "extern",
      "false", "fn", "for", "if", "impl", "in", "let", "loop", "match", "mod", "move", "mut", "pub",
      "ref", "return", "self", "Self", "static", "struct", "super", "trait", "true", "type",
      "unsafe", "use", "where", "while", "abstract", "become", "box", "do", "final", "macro",
      "override", "priv", "typeof", "unsized", "virtual", "yield", "try", "gen", "i64", "usize",
      "Vec", "main"]

namespace Language

def all : List Language := [.python, .java, .rust]

def name : Language → Text
  | .python => "python"
  | .java => "java"
  | .rust => "rust"

def ofName? (name : Text) : Option Language := all.find? fun language => language.name = name

def target : Language → Target
  | .python => Python.target
  | .java => Java.target
  | .rust => Rust.target

def reserved : Language → List Text
  | .python => pythonWords
  | .java => javaWords
  | .rust => rustWords

def underscore : UInt8 := 95

/-- A letter or underscore, then letters, digits and underscores. -/
def isIdentifier : Text → Bool
  | [] => false
  | head :: tail =>
      (Text.isLetter head || head == underscore) &&
        tail.all fun byte => Text.isLetter byte || Text.isDigit byte || byte == underscore

def isFunctionName (language : Language) (name : Text) : Bool :=
  isIdentifier name && !bodyNames.contains name && !language.reserved.contains name

/-- The source of a function that computes what the machine answers. -/
def render (language : Language) (name : Text) (program : Program) : Text :=
  language.target.textFrom .blank (walk name program)

end Language

end StackMachine.Render

import StackMachine.Assembly.Line
import StackMachine.Diagnostic

/-!
Reading a program from its text. Every line is read even after a refused one, and each refused line
gives one diagnostic; the program as a whole is checked only when no line was refused.
-/

namespace StackMachine.Assembly

set_option autoImplicit false

/-- What the lines so far amount to. The code is kept latest first. A line that begins like an
instruction ends the header, also when it is refused. -/
structure Draft where
  header : Header
  code : List Instr
  started : Bool
deriving DecidableEq, Repr

/-- The diagnostics of a refused text, of which there is at least one. -/
structure Rejection where
  first : Diagnostic
  others : List Diagnostic
deriving DecidableEq, Repr

def Rejection.all (rejection : Rejection) : List Diagnostic := rejection.first :: rejection.others

def Fault.diagnostic (line : Nat) (fault : Fault) : Diagnostic :=
  ⟨.error, fault.error.message, line, fault.column⟩

/-- A directive begins with a point. -/
def Token.isDirective (token : Token) : Bool := token.text.head? = some 46

namespace Draft

def blank : Draft := ⟨.blank, [], false⟩

/-- Reads one line. A refused line changes nothing, except that an instruction ends the header. -/
def absorb (draft : Draft) : List Token → Draft × Option Fault
  | [] => (draft, none)
  | head :: arguments =>
      if head.isDirective then
        match draft.header.read draft.started head arguments with
        | .ok header => ({ draft with header := header }, none)
        | .error fault => (draft, some fault)
      else
        match readInstr head arguments with
        | .ok instr => ({ draft with code := instr :: draft.code, started := true }, none)
        | .error fault => ({ draft with started := true }, some fault)

/-- Reads the lines that start with the given number, and reports the refused ones in order. -/
def absorbLines (draft : Draft) (number : Nat) : List Text → Draft × List Diagnostic
  | [] => (draft, [])
  | line :: rest =>
      let (draft, fault) := draft.absorb (tokenize line)
      let (draft, diagnostics) := draft.absorbLines (number + 1) rest
      (draft, (fault.map (Fault.diagnostic number)).toList ++ diagnostics)

/-- The program that the lines describe; what the header leaves open has its default. -/
def program (draft : Draft) : Except ProgramError Program :=
  Program.create draft.code.reverse (draft.header.maxSteps.getD Program.defaultMaxSteps)
    (draft.header.jumpMode.getD .error) (draft.header.inputMode.getD .direct)

end Draft

def parse (text : Text) : Except Rejection Program :=
  match Draft.blank.absorbLines 1 (Text.lines text) with
  | (_, first :: others) => .error ⟨first, others⟩
  | (draft, []) =>
      match draft.program with
      | .ok program => .ok program
      | .error error => .error ⟨.unlocated error.message, []⟩

/-- Reads a program and keeps only the first diagnostic. -/
def parseStrict (text : Text) : Except Diagnostic Program :=
  match parse text with
  | .ok program => .ok program
  | .error rejection => .error rejection.first

end StackMachine.Assembly

import StackMachine.Assembly.Token
import StackMachine.Program

/-!
One line of assembly: a directive of the header, or an instruction. A refused line has one fault,
which names its cause and the column of the token to blame.
-/

namespace StackMachine.Assembly

set_option autoImplicit false

inductive Directive where
  | maxSteps | jumpMode | inputMode
deriving DecidableEq, Repr

namespace Directive

def all : List Directive := [.maxSteps, .jumpMode, .inputMode]

def name : Directive → Text
  | .maxSteps => ".max_steps"
  | .jumpMode => ".jump_mode"
  | .inputMode => ".input_mode"

def ofName? (name : Text) : Option Directive := all.find? fun directive => directive.name = name

end Directive

inductive LineError where
  | lateDirective (name : Text)
  | missingValue (name : Text)
  | unexpectedToken (token : Text)
  | duplicateDirective (name : Text)
  | unknownDirective (name : Text)
  | malformedInteger (token : Text)
  | unknownJumpMode (token : Text)
  | unknownInputMode (token : Text)
  | unknownMnemonic (name : Text)
  | badInstr (error : InstrError)
deriving DecidableEq, Repr

def LineError.message : LineError → Text
  | .lateDirective name => "directive '" ++ name ++ "' must precede the first instruction"
  | .missingValue name => "directive '" ++ name ++ "' requires a value"
  | .unexpectedToken token => "unexpected token '" ++ token ++ "'"
  | .duplicateDirective name => "duplicate directive '" ++ name ++ "'"
  | .unknownDirective name => "unknown directive '" ++ name ++ "'"
  | .malformedInteger token => "malformed integer '" ++ token ++ "'"
  | .unknownJumpMode token => "unknown jump mode '" ++ token ++ "'"
  | .unknownInputMode token => "unknown input mode '" ++ token ++ "'"
  | .unknownMnemonic name => "unknown mnemonic '" ++ name ++ "'"
  | .badInstr error => error.message

structure Fault where
  error : LineError
  column : Nat
deriving DecidableEq, Repr

/-- Blames a token for an error that speaks of its text. -/
def Token.fault (token : Token) (error : Text → LineError) : Fault :=
  ⟨error token.text, token.column⟩

/-- The directives read so far. -/
structure Header where
  maxSteps : Option Word
  jumpMode : Option JumpMode
  inputMode : Option InputMode
deriving DecidableEq, Repr

namespace Header

def blank : Header := ⟨none, none, none⟩

def sets (header : Header) : Directive → Bool
  | .maxSteps => header.maxSteps.isSome
  | .jumpMode => header.jumpMode.isSome
  | .inputMode => header.inputMode.isSome

/-- Sets a directive from its spelled value. The value of a step budget is checked with the whole
program and not here. -/
def set (header : Header) (directive : Directive) (value : Token) : Except Fault Header :=
  match directive with
  | .maxSteps =>
      match Decimal.toWord? value.text with
      | some maxSteps => .ok { header with maxSteps := some maxSteps }
      | none => .error (value.fault .malformedInteger)
  | .jumpMode =>
      match JumpMode.ofName? value.text with
      | some mode => .ok { header with jumpMode := some mode }
      | none => .error (value.fault .unknownJumpMode)
  | .inputMode =>
      match InputMode.ofName? value.text with
      | some mode => .ok { header with inputMode := some mode }
      | none => .error (value.fault .unknownInputMode)

/-- Reads a directive line. The place and the number of tokens are judged before the name, and a
repetition before the value. -/
def read (header : Header) (started : Bool) (head : Token) (arguments : List Token) :
    Except Fault Header :=
  if started then .error (head.fault .lateDirective)
  else
    match arguments with
    | [] => .error (head.fault .missingValue)
    | _ :: extra :: _ => .error (extra.fault .unexpectedToken)
    | [value] =>
        match Directive.ofName? head.text with
        | none => .error (head.fault .unknownDirective)
        | some directive =>
            if header.sets directive then .error (head.fault .duplicateDirective)
            else header.set directive value

end Header

/-- How many operands may follow a mnemonic. -/
def operandCount (opcode : Opcode) : Nat := if opcode.operandKind = .none then 0 else 1

/-- Reads the operand of an instruction line, if the line has one. -/
def readOperand : List Token → Except Fault (Option Word)
  | [] => .ok none
  | token :: _ =>
      match Decimal.toWord? token.text with
      | some value => .ok (some value)
      | none => .error (token.fault .malformedInteger)

/-- Reads an instruction line. A token too many is found before the operand is read. -/
def readInstr (head : Token) (arguments : List Token) : Except Fault Instr :=
  match Opcode.ofMnemonic? head.text with
  | none => .error (head.fault .unknownMnemonic)
  | some opcode =>
      match arguments[operandCount opcode]? with
      | some extra => .error (extra.fault .unexpectedToken)
      | none =>
          match readOperand arguments with
          | .error fault => .error fault
          | .ok operand =>
              match Instr.make opcode operand with
              | .ok instr => .ok instr
              | .error error => .error ⟨.badInstr error, head.column⟩

end StackMachine.Assembly

import StackMachine.Command.Load
import StackMachine.Command.Options
import StackMachine.Command.Usage
import StackMachine.Render.Language

/-!
The command that renders a program file as source text. The file is read whole before the output is
opened, so both may be the same.
-/

namespace StackMachine.Command

set_option autoImplicit false

open StackMachine.Render (Language)

structure RenderRequest where
  path : Text
  output : Text
  name : Text
  language : Option Language
deriving DecidableEq, Repr

inductive RenderError where
  | unknownLanguage (name : Text)
  | invalidName (language : Language) (name : Text)
  /-- Arguments that make no request at all. -/
  | misuse
deriving DecidableEq, Repr

def RenderError.message : RenderError → Text
  | .unknownLanguage name => "error: unknown language '" ++ name ++ "'\n"
  | .invalidName language name =>
      "error: invalid " ++ language.name ++ " function name '" ++ name ++ "'\n"
  | .misuse => usage

/-- The options that take a value. -/
inductive RenderSetting where
  | language | name | output
deriving DecidableEq, Repr

namespace RenderSetting

def all : List RenderSetting := [.language, .name, .output]

def text : RenderSetting → Text
  | .language => "--lang"
  | .name => "--name"
  | .output => "-o"

def ofText? (text : Text) : Option RenderSetting := all.find? fun setting => setting.text = text

end RenderSetting

namespace RenderRequest

def blank : RenderRequest := ⟨[], [], "f", none⟩

def set (request : RenderRequest) (setting : RenderSetting) (value : Text) :
    Except RenderError RenderRequest :=
  match setting with
  | .name => .ok { request with name := value }
  | .output => .ok { request with output := value }
  | .language =>
      match Language.ofName? value with
      | some language => .ok { request with language := some language }
      | none => .error (.unknownLanguage value)

/-- Takes an argument as the file, of which there is one. -/
def takePath (request : RenderRequest) (argument : Text) : Except RenderError RenderRequest :=
  if request.path = [] ∧ argument ≠ [] ∧ looksLikeOption argument = false then
    .ok { request with path := argument }
  else .error .misuse

def read (request : RenderRequest) : List Text → Except RenderError RenderRequest
  | [] => .ok request
  | argument :: rest =>
      match RenderSetting.ofText? argument, rest with
      | some setting, value :: rest =>
          match request.set setting value with
          | .ok request => read request rest
          | .error error => .error error
      | _, rest =>
          match request.takePath argument with
          | .ok request => read request rest
          | .error error => .error error

/-- The language of a request that names one and a file, with a name that the language admits. -/
def check (request : RenderRequest) : Except RenderError Language :=
  match request.language with
  | none => .error .misuse
  | some language =>
      if request.path = [] then .error .misuse
      else if language.isFunctionName request.name then .ok language
      else .error (.invalidName language request.name)

/-- Prints the source, or writes it where an output is named. -/
def deliver (request : RenderRequest) (source : Text) : Script :=
  if request.output = [] then .done source
  else
    .write request.output source fun writing =>
      match writing with
      | .unopened => .fail ("error: cannot open '" ++ request.output ++ "' for writing\n")
      | .unwritten => .fail ("error: failed to write '" ++ request.output ++ "'\n")
      | .written => .done []

def script (request : RenderRequest) (language : Language) : Script :=
  withProgram request.path fun program =>
    request.deliver (language.render request.name program)

end RenderRequest

def render (arguments : List Text) : Script :=
  match RenderRequest.blank.read arguments with
  | .error error => .fail error.message
  | .ok request =>
      match request.check with
      | .ok language => request.script language
      | .error error => .fail error.message

end StackMachine.Command

import StackMachine.Text

/-!
Scripts. A command describes what it reads, writes and asks for, and ends with an exit code and the
text of both output streams; nothing is printed before the end. A script runs on a disk given as
data, and the program's entry point runs the same script on the real one.
-/

namespace StackMachine.Command

set_option autoImplicit false

/-- How far a write came. -/
inductive Writing where
  /-- The file could not be opened. -/
  | unopened
  /-- The file was opened, but the content could not be written. -/
  | unwritten
  | written
deriving DecidableEq, Repr

inductive Script where
  | exit (code : Nat) (out err : Text)
  /-- Goes on with the content of a file, or with `none` when it cannot be opened. -/
  | read (path : Text) (next : Option Text → Script)
  /-- Replaces the content of a file. -/
  | write (path content : Text) (next : Writing → Script)
  /-- Goes on with a seed from outside. -/
  | seed (next : UInt64 → Script)

def Script.done (out : Text) : Script := .exit 0 out []

def Script.fail (err : Text) : Script := .exit 1 [] err

/-- Ends as a raised failure does that nothing handles. What the system says about it is left out. -/
def Script.abort : Script := .exit 134 [] []

structure Reply where
  code : Nat
  out : Text
  err : Text
deriving DecidableEq, Repr

/-- What a path leads to, seen from a directory that holds files only. -/
inductive Place where
  | file (name : Text)
  | directory
  | nowhere
deriving DecidableEq, Repr

namespace Place

def slash : UInt8 := 47

def here : Text := "."

def above : Text := ".."

/-- The most bytes that a path may have. -/
def maxPathLength : Nat := 4095

/-- The most bytes that a name may have. -/
def maxNameLength : Nat := 255

/-- Steps that stay at directories: empty ones, to the directory itself, and to the one above. -/
def isDirectoryStep (step : Text) : Bool := step = [] || step = here || step = above

/-- A plain name, also with some `./` before it, is a file; a path of directory steps alone is a
directory; anything else leads out of sight, and so does a path or a name that is too long. -/
def ofPath (path : Text) : Place :=
  let steps := Text.split slash path
  if path = [] ∨ maxPathLength < path.length then .nowhere
  else if steps.all isDirectoryStep then .directory
  else if path.head? = some slash then .nowhere
  else
    match steps.dropWhile fun step => step = [] ∨ step = here with
    | [name] => if maxNameLength < name.length then .nowhere else .file name
    | _ => .nowhere

end Place

/-- The files of the working directory. The first entry of a name counts. -/
structure Disk where
  files : List (Text × Text)
deriving DecidableEq, Repr

namespace Disk

def content? (disk : Disk) (name : Text) : Option Text :=
  (disk.files.find? fun file => file.1 = name).map Prod.snd

/-- A directory opens like a file without content. -/
def read (disk : Disk) (path : Text) : Option Text :=
  match Place.ofPath path with
  | .file name => disk.content? name
  | .directory => some []
  | .nowhere => none

/-- The disk after a write, or `none` where no file can be opened for writing. -/
def write? (disk : Disk) (path content : Text) : Option Disk :=
  match Place.ofPath path with
  | .file name => some ⟨(name, content) :: disk.files.filter fun file => file.1 ≠ name⟩
  | .directory | .nowhere => none

end Disk

/-- Runs a script on a disk, with `entropy` as the seed from outside. -/
def Script.runOn (entropy : UInt64) : Script → Disk → Reply × Disk
  | .exit code out err, disk => (⟨code, out, err⟩, disk)
  | .read path next, disk => (next (disk.read path)).runOn entropy disk
  | .write path content next, disk =>
      match disk.write? path content with
      | some disk => (next .written).runOn entropy disk
      | none => (next .unopened).runOn entropy disk
  | .seed next, disk => (next entropy).runOn entropy disk

end StackMachine.Command

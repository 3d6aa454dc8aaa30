import StackMachine.Command.Tool

/-!
The entry point. It runs the script of the command line on the real files and streams.
-/

namespace StackMachine

set_option autoImplicit false

def bytesOf (text : Text) : ByteArray := ⟨text.toArray⟩

/-- All that a handle has to read. A directory opens but has nothing. -/
def contentOf (handle : IO.FS.Handle) : IO Text := do
  try
    let bytes ← handle.readBinToEnd
    return bytes.toList
  catch _ =>
    return []

def readFile (path : String) : IO (Option Text) := do
  try
    let handle ← IO.FS.Handle.mk path .read
    return some (← contentOf handle)
  catch _ =>
    return none

/-- What is written through a handle. -/
def written (handle : IO.FS.Handle) (content : Text) : IO Command.Writing := do
  try
    handle.write (bytesOf content)
    handle.flush
    return .written
  catch _ =>
    return .unwritten

def writeFile (path : String) (content : Text) : IO Command.Writing := do
  try
    let handle ← IO.FS.Handle.mk path .write
    written handle content
  catch _ =>
    return .unopened

def pathOf (path : Text) : String := (String.fromUTF8? (bytesOf path)).getD ""

def perform : Command.Script → IO UInt32
  | .exit code out err => do
      (← IO.getStdout).write (bytesOf out)
      (← IO.getStderr).write (bytesOf err)
      return code.toUInt32
  | .read path next => do perform (next (← readFile (pathOf path)))
  | .write path content next => do perform (next (← writeFile (pathOf path) content))
  | .seed next => do
      let bytes ← IO.getRandomBytes 4
      perform (next (bytes.toList.foldl (fun seed byte => seed * 256 + byte.toUInt64) 0))

end StackMachine

def main (arguments : List String) : IO UInt32 :=
  StackMachine.perform (StackMachine.Command.tool (arguments.map fun text => text.toUTF8.toList))

import Mathlib.Logic.Function.Basic
import StackMachine.Command.Script

/-!
# Scripts on any files

A script sees of the files around it only where its paths lead, whether they can be opened and
whether a write goes through. A disk is one such storage, and a script ends on it as it does there.
-/

namespace StackMachine.Command

set_option autoImplicit false

/-- Files behind paths. Several paths may lead to one file, and a path may lead to a file that does
not exist before it is written. A path leads to a plain file, to a directory or nowhere, and never to
a device or to a stream of the process. -/
structure Storage where
  place : Text → Place
  readable : Text → Bool
  writable : Text → Bool
  /-- What a write of some content to a path leaves in the file if it fails after the file was opened;
  nothing if it does not fail. -/
  broken? : Text → Text → Option Text
  content? : Text → Option Text

namespace Storage

/-- No write fails once the file was opened. -/
def Reliable (storage : Storage) : Prop := ∀ path content, storage.broken? path content = none

def read (storage : Storage) (path : Text) : Option Text :=
  match storage.place path with
  | .file name => if storage.readable path then storage.content? name else none
  | .directory => some []
  | .nowhere => none

def replace (storage : Storage) (name content : Text) : Storage :=
  { storage with content? := Function.update storage.content? name (some content) }

/-- How far a write comes, and the storage after it. -/
def write (storage : Storage) (path content : Text) : Writing × Storage :=
  match storage.place path with
  | .file name =>
      if storage.writable path then
        match storage.broken? path content with
        | none => (.written, storage.replace name content)
        | some left => (.unwritten, storage.replace name left)
      else (.unopened, storage)
  | .directory | .nowhere => (.unopened, storage)

/-- A write that does not fail once the file was opened changes the file that its path leads to, and
nothing else, or it changes nothing. -/
theorem write_reliable {storage : Storage} (reliable : storage.Reliable) (path content : Text) :
    storage.write path content = (.unopened, storage) ∨
      ∃ name, storage.place path = .file name ∧
        storage.write path content = (.written, storage.replace name content) := by
  rw [write]
  cases led : storage.place path with
  | file name =>
      by_cases opened : storage.writable path
      · exact .inr ⟨name, rfl, by simp [opened, reliable path content]⟩
      · exact .inl (by simp [opened])
  | directory | nowhere => exact .inl rfl

end Storage

/-- Runs a script among files, with `entropy` as the seed from outside. -/
def Script.runIn (entropy : UInt64) : Script → Storage → Reply × Storage
  | .exit code out err, storage => (⟨code, out, err⟩, storage)
  | .read path next, storage => (next (storage.read path)).runIn entropy storage
  | .write path content next, storage =>
      let (writing, storage) := storage.write path content
      (next writing).runIn entropy storage
  | .seed next, storage => (next entropy).runIn entropy storage

namespace Disk

def storage (disk : Disk) : Storage :=
  ⟨Place.ofPath, fun _ => true, fun _ => true, fun _ _ => none, disk.content?⟩

theorem content_replaced (disk : Disk) (name content : Text) :
    content? ⟨(name, content) :: disk.files.filter fun file => file.1 ≠ name⟩ =
      Function.update disk.content? name (some content) := by
  funext other
  by_cases same : other = name
  · rw [same, Function.update_self, content?, List.find?_cons_of_pos (by simp)]
    rfl
  · have kept : (disk.files.filter fun file => file.1 ≠ name).find? (fun file => file.1 = other) =
        disk.files.find? fun file => file.1 = other := by
      rw [List.find?_filter]
      refine congrArg (disk.files.find? ·) (funext fun file => ?_)
      by_cases found : file.1 = other <;> simp [found, same]
    rw [Function.update_of_ne same, content?, content?,
      List.find?_cons_of_neg (by simpa using Ne.symm same), kept]

theorem storage_write (disk : Disk) (path content : Text) :
    disk.storage.write path content =
      match disk.write? path content with
      | some written => (.written, written.storage)
      | none => (.unopened, disk.storage) := by
  have led : disk.storage.place path = Place.ofPath path := rfl
  rw [Storage.write, write?, led]
  cases Place.ofPath path with
  | file name =>
      have replaced := disk.content_replaced name content
      simp only [storage, replaced]
      rfl
  | directory | nowhere => rfl

end Disk

theorem Script.run_in_disk (entropy : UInt64) (script : Script) (disk : Disk) :
    script.runIn entropy disk.storage =
      ((script.runOn entropy disk).1, (script.runOn entropy disk).2.storage) := by
  induction script generalizing disk with
  | exit code out err => rfl
  | read path next ih => exact ih _ disk
  | write path content next ih =>
      rw [Script.runIn, Script.runOn, disk.storage_write]
      cases disk.write? path content with
      | none => exact ih .unopened disk
      | some written => exact ih .written written
  | seed next ih => exact ih entropy disk

end StackMachine.Command

import StackMachine.Assembly.Source

/-!
# Reading in a loop

The reader in the form of a loop: it counts the lines in 32 bits, reports a fault when it meets one,
to a collection that counts errors and warnings beside the reports themselves, and keeps a flag for
the end. The strict reader takes the first report without asking whether there is one. The loop finds
what the recursion over the lines finds, with every place cut to 32 bits.
-/

namespace StackMachine.Assembly

set_option autoImplicit false

/-- What was reported, in order, and how many errors and warnings there are in it. -/
structure Reports where
  all : List Diagnostic
  errors : UInt64
  warnings : UInt64
deriving DecidableEq, Repr

namespace Reports

def none : Reports := ⟨[], 0, 0⟩

def add (reports : Reports) (diagnostic : Diagnostic) : Reports where
  all := reports.all ++ [diagnostic]
  errors :=
    if diagnostic.severity = .error then reports.errors + 1 else reports.errors
  warnings :=
    if diagnostic.severity = .warning then reports.warnings + 1 else reports.warnings

end Reports

def Fault.report (line : UInt32) (fault : Fault) : Diagnostic :=
  ⟨.error, fault.error.message, line.toNat, (UInt32.ofNat fault.column).toNat⟩

structure Reading where
  draft : Draft
  line : UInt32
  failed : Bool
  reports : Reports
deriving DecidableEq, Repr

def Reading.next (reading : Reading) (text : Text) : Reading :=
  let line := reading.line + 1
  match reading.draft.absorb (tokenize text) with
  | (draft, none) => { reading with draft := draft, line := line }
  | (draft, some fault) => ⟨draft, line, true, reading.reports.add (fault.report line)⟩

/-- Reads a program and adds what there is to report. -/
def recover (text : Text) (reports : Reports) : Option Program × Reports :=
  let reading := (Text.lines text).foldl Reading.next ⟨.blank, 0, false, reports⟩
  if reading.failed then (none, reading.reports)
  else
    match reading.draft.program with
    | .ok program => (some program, reading.reports)
    | .error error => (none, reading.reports.add (.unlocated error.message))

/-- Reads a program or the first report; undefined for a text that is refused without one. -/
def recoverFirst? (text : Text) : Option (Except Diagnostic Program) :=
  match recover text .none with
  | (some program, _) => some (.ok program)
  | (none, reports) => reports.all.head?.map .error

theorem Reports.all_add_all (reports : Reports) (diagnostics : List Diagnostic) :
    (diagnostics.foldl .add reports).all = reports.all ++ diagnostics := by
  induction diagnostics generalizing reports with
  | nil => simp
  | cons diagnostic diagnostics ih =>
      rw [List.foldl_cons, ih, add, List.append_assoc, List.singleton_append]

/-- A diagnostic with its place cut to 32 bits. -/
def cut (diagnostic : Diagnostic) : Diagnostic :=
  { diagnostic with
    line := (UInt32.ofNat diagnostic.line).toNat
    column := (UInt32.ofNat diagnostic.column).toNat }

/-- By induction on the lines, from any state of the loop. -/
theorem loop_reads (lines : List Text) (draft : Draft) (number : Nat) (failed : Bool)
    (reports : Reports) :
    lines.foldl Reading.next ⟨draft, .ofNat number, failed, reports⟩ =
      ⟨(draft.absorbLines (number + 1) lines).1, .ofNat (number + lines.length),
        failed || !(draft.absorbLines (number + 1) lines).2.isEmpty,
        ((draft.absorbLines (number + 1) lines).2.map cut).foldl .add reports⟩ := by
  induction lines generalizing draft number failed reports with
  | nil => simp [Draft.absorbLines]
  | cons line lines ih =>
      have next : UInt32.ofNat number + 1 = .ofNat (number + 1) := by
        rw [UInt32.ofNat_add]
        rfl
      have count : number + (line :: lines).length = number + 1 + lines.length := by
        rw [List.length_cons]
        omega
      rw [List.foldl_cons, Reading.next, Draft.absorbLines, count]
      rcases draft.absorb (tokenize line) with ⟨after, _ | fault⟩
      · simp only [next, ih, Option.map_none, Option.toList_none, List.nil_append]
      · simp only [next, ih]
        simp [cut, Fault.report, Fault.diagnostic]

end StackMachine.Assembly

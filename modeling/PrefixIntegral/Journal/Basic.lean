import PrefixIntegral.Journal.Calendar
import PrefixIntegral.Journal.Outlet
import PrefixIntegral.Journal.Remark

/-!
A journal of what the library does. Recorders decide what is written down and share one board of
outlets; the recorder made last, or whose verbosity last changed between silent and not, is the
one whose outlets are up. One recorder may be in general use; it is made on demand.
-/

namespace PrefixIntegral

/-- A recorder: how much it says, where it writes to, and when it last wrote down progress. -/
structure Recorder where
  level : Verbosity
  toStream : Bool
  file : Option Text
  lastProgress : Float

namespace Recorder

def default : Recorder := ⟨.minimal, false, none, 0⟩

/-- The sinks of a recorder: a silent one writes to its file only. -/
def sinks (r : Recorder) : List Sink :=
  (if r.level = .silent then [] else [if r.toStream then .stream else .standardError]) ++
    r.file.toList.map .file

/-- Whether progress said at a time is due, two seconds after the last. -/
def isDue (r : Recorder) (now : Float) : Bool := now - r.lastProgress ≥ 2

def note (r : Recorder) (remark : Remark) : Recorder × List Entry :=
  if r.level.admits remark.required then
    match remark with
    | .progress now _ forced =>
      if forced || r.isDue now then ({ r with lastProgress := now }, remark.entries) else (r, [])
    | _ => (r, remark.entries)
  else (r, [])

end Recorder

/-- The file a journal is written to when it has no name: it is named for the time. -/
def journalFile (now : Float) : Text :=
  "polish_quadrature_".toList ++ Calendar.stampAt now ++ ".log".toList

/-- The outlets, every recorder made so far, and the place of the one in general use. -/
structure Journal where
  board : Board
  recorders : List Recorder
  current : Option Nat

namespace Journal

def empty : Journal := ⟨.empty, [], none⟩

def recorder? (j : Journal) : Option Recorder := j.current.bind fun i => j.recorders[i]?

def make (j : Journal) (r : Recorder) : Journal :=
  { j with board := j.board.install r.sinks, recorders := j.recorders ++ [r] }

def configure (j : Journal) (r : Recorder) : Journal :=
  { j.make r with current := some j.recorders.length }

/-- Leaves no recorder in general use. Outlets stay up until a recorder is made. -/
def forget (j : Journal) : Journal := { j with current := none }

def ensured (j : Journal) : Journal :=
  if j.recorder?.isSome then j else j.configure .default

def level (j : Journal) : Verbosity := (j.recorder?.getD .default).level

/-- Changes the verbosity of a recorder. Its outlets are put up anew only if it becomes silent or
ceases to be. -/
def setLevelOf (j : Journal) (i : Nat) (level : Verbosity) : Journal :=
  match j.recorders[i]? with
  | none => j
  | some r =>
    let changed := { r with level }
    let j := { j with recorders := j.recorders.set i changed }
    if (r.level = .silent) = (level = .silent) then j
    else { j with board := j.board.install changed.sinks }

/-- Changes the verbosity of the recorder in general use, or makes one of that verbosity. -/
def setLevel (j : Journal) (level : Verbosity) : Journal :=
  match j.current with
  | none => j.configure { Recorder.default with level }
  | some i => j.setLevelOf i level

def noteBy (j : Journal) (i : Nat) (remark : Remark) : Journal × List (Sink × Entry) :=
  match j.recorders[i]? with
  | none => (j, [])
  | some r =>
    let (r, entries) := r.note remark
    ({ j with recorders := j.recorders.set i r }, j.board.deliver entries)

/-- Takes a remark by the recorder in general use, which is made if there is none. -/
def note (j : Journal) (remark : Remark) : Journal × List (Sink × Entry) :=
  let j := j.ensured
  match j.current with
  | none => (j, [])
  | some i => j.noteBy i remark

def noteAll (j : Journal) : List Remark → Journal × List (Sink × Entry)
  | [] => (j, [])
  | remark :: rest =>
    let (j, written) := j.note remark
    let (j, more) := j.noteAll rest
    (j, written ++ more)

def attach (j : Journal) (tag : Nat) (sink : Sink) : Journal :=
  { j with board := j.board.attach ⟨.application tag, sink⟩ }

def detach (j : Journal) (tag : Nat) (sink : Sink) : Journal :=
  { j with board := j.board.detach ⟨.application tag, sink⟩ }

end Journal

end PrefixIntegral

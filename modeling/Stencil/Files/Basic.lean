import Stencil.Files.Path
import Stencil.Template.Outcome

/-! # Files

The files that a job may read are a function from paths to what is found there. Text is
UTF-8, and every line end in it is read as a newline. How a document is read from a text is
left to a reader that is given.
-/
namespace Stencil

inductive FileState where
  | absent
  | present (contents : ByteArray)
  /-- The file is there and cannot be read, for the reason that the system gives. -/
  | locked (reason : Text)
  /-- The path, or a name in it, is longer than the file system admits. -/
  | unnameable
  /-- A directory on the path may not be searched, so that nothing is known of the file. -/
  | hidden

abbrev Files := Path → FileState

/-- Turns a carriage return, alone or before a newline, into a newline. -/
def unifyLineEnds : Text → Text
  | [] => []
  | '\r' :: '\n' :: rest => '\n' :: unifyLineEnds rest
  | c :: rest => (if c = '\r' then '\n' else c) :: unifyLineEnds rest

def textOfBytes? (bytes : ByteArray) : Option Text :=
  (String.fromUTF8? bytes).map fun s => unifyLineEnds s.toList

inductive DocumentFlaw where
  /-- It is none, for the reason that the reader gives. -/
  | malformed (reason : Text)
  /-- The reader breaks down over it. -/
  | broken (breakdown : Breakdown)
  deriving DecidableEq, Repr

abbrev DocumentReader := Text → Except DocumentFlaw Value

def Failure.ofFlaw (path : Path) : DocumentFlaw → Failure
  | .malformed reason => settings { cause := .invalidYaml path.text reason }
  | .broken breakdown => broken breakdown

namespace Files

def text? (files : Files) (locked : Text → Text → SettingCause) (path : Path) :
    Except Failure (Option Text) :=
  match files path with
  | .absent => .ok none
  | .unnameable => .error (.broken (.longName path.text))
  | .hidden => .error (.broken (.closedDirectory path.text))
  | .locked reason => .error (.settings { cause := locked path.text reason })
  | .present contents =>
    match textOfBytes? contents with
    | some t => .ok (some t)
    | none => .error (.broken (.undecodable path.text))

def document? (files : Files) (read : DocumentReader) (path : Path) :
    Except Failure (Option Value) := do
  match ← files.text? .lockedFile path with
  | none => return none
  | some t =>
    match read t with
    | .ok v => return some v
    | .error flaw => throw (.ofFlaw path flaw)

end Files

end Stencil

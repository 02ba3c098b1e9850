import Stencil.Settings.Options
import Stencil.Settings.Problem

/-! # Options from a mapping

A mapping may spell an option in two ways. An unknown key is refused before any value is
looked at; of several entries for one option the last counts.
-/
namespace Stencil

inductive OptionName where
  | trimEndLine
  | squash
  | maxDepth
  deriving DecidableEq, Repr

namespace OptionName

/-- The ways to spell an option, the usual one first. -/
def spellings : OptionName → List Text
  | trimEndLine => ["trim_end_line".toList, "trimEndLine".toList]
  | squash => ["squash".toList]
  | maxDepth => ["max_depth".toList, "maxDepth".toList]

def text (name : OptionName) : Text := name.spellings.headD []

def ofKey? (key : Value) : Option OptionName :=
  [trimEndLine, squash, maxDepth].find? fun name => name.spellings.any key.isText

end OptionName

namespace Options

def unknownKey? (entries : Mapping) : Option Value :=
  (entries.find? fun entry => (OptionName.ofKey? entry.1).isNone).map (·.1)

def given? (name : OptionName) (entries : Mapping) : Option Value :=
  (entries.reverse.find? fun entry => OptionName.ofKey? entry.1 = some name).map (·.2)

def readOr (name : OptionName) (cause : Value → SettingCause) (read? : Value → Option α)
    (default : α) (entries : Mapping) : Except SettingProblem α :=
  match given? name entries with
  | none => .ok default
  | some v =>
    match read? v with
    | some a => .ok a
    | none => .error ⟨cause v, [name.text]⟩

def readBool? : Value → Option Bool
  | .bool b => some b
  | _ => none

def readSquash? (v : Value) : Option SquashMode := v.toText?.bind SquashMode.ofName?

def readDepth? : Value → Option Nat
  | .int (.ofNat (n + 1)) => some (n + 1)
  | _ => none

def ofEntries (entries : Mapping) : Except SettingProblem Options :=
  match unknownKey? entries with
  | some key => .error ⟨.unknownOption key, []⟩
  | none => do
    let trimEndLine ← readOr .trimEndLine (fun _ => .notABoolean) readBool? true entries
    let squash ← readOr .squash .notASquashMode readSquash? .on entries
    let maxDepth ← readOr .maxDepth .notADepth readDepth? 100 entries
    return { trimEndLine, squash, maxDepth }

def ofValue : Value → Except SettingProblem Options
  | .mapping entries => ofEntries entries
  | v => .error ⟨.notAMapping v.kindName, []⟩

def ofOptional (v : Value) : Except SettingProblem Options :=
  if v.isNull then .ok {} else ofValue v

end Options

end Stencil

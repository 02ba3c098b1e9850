import Stencil.Files.Basic
import Stencil.Settings.Normal
import Stencil.Settings.OfMapping

/-! # Options and variables from files

A file with options has them at the top or under the key `options`; a file that is not
there, or has nothing in it, leaves the default ones. A file with variables has to be there.
-/
namespace Stencil

/-- Whether a value has nothing in it: null, false, zero, and what is empty. -/
def Value.isVacant : Value → Bool
  | null => true
  | bool b => !b
  | int i => i == 0
  | float x => x.toInt? == some 0
  | text t => t.isEmpty
  | list items => items.isEmpty
  | tuple items => items.isEmpty
  | mapping entries => entries.isEmpty
  | foreign object => object.isVacant

namespace Options

def ofDocumentEntries (entries : Mapping) : Except SettingProblem Options :=
  match Mapping.get? "options".toList entries with
  | none => ofEntries entries
  | some v => if v.isVacant then .ok {} else ofValue v

def ofDocument (path : Path) (document : Value) : Except SettingProblem Options :=
  if document.isVacant then .ok {}
  else
    match document with
    | .mapping entries => ofDocumentEntries entries
    | _ => .error { cause := .documentNotAMapping path.text }

def load (files : Files) (read : DocumentReader) (path : Path) : Except Failure Options := do
  match ← files.document? read path with
  | none => return {}
  | some document => (ofDocument path document).mapError .ofSetting

def path? (named : Option Path) (fallback : Text) : Option Path :=
  named.or (Path.named? fallback.trim)

/-- The options in the file that is named, or else in the one that `fallback` names; the
default ones if neither is named. -/
def loadNamed (files : Files) (read : DocumentReader) (named : Option Path) (fallback : Text) :
    Except Failure Options :=
  match path? named fallback with
  | none => .ok {}
  | some path => load files read path

end Options

def Variables.ofDocument (path : Path) : Value → Except SettingProblem Mapping
  | .null => .ok []
  | .mapping entries => Value.normalizeEntries [] [] entries
  | _ => .error { cause := .variablesNotAMapping path.text }

def Variables.load (files : Files) (read : DocumentReader) (path : Path) :
    Except Failure Mapping := do
  match ← files.document? read path with
  | none => throw (.settings { cause := .noVariablesFile path.text })
  | some document => (ofDocument path document).mapError .ofSetting

end Stencil

import Stencil.CommandLine.Reply
import Stencil.Yaml.Document

/-! # The program

Collects what the arguments ask for, and writes what comes of it.
-/
namespace Stencil.CommandLine

def isFound (path : Path) : IO Bool := do
  try
    discard (IO.FS.realPath path.text.str)
    return true
  catch _ => return false

/-- What a file is from which no bytes can be had. Where a directory stands, there is no file,
and one that is not found cannot be locked. -/
def stateOfError (path : Path) : IO.Error → IO FileState
  | .noFileOrDirectory .. => return .absent
  | .inappropriateType .. => return .absent
  | .invalidArgument .. => return .unnameable
  | error => do
    let found ← isFound path
    return if found then .locked (toString error).toList else .hidden

def filesAt (paths : List Path) : IO Files := do
  let found ← paths.mapM fun path => do
    try return (path, .present (← IO.FS.readBinFile path.text.str))
    catch error => return (path, ← stateOfError path error)
  return fun path => (found.lookup path).getD .absent

/-- How deep a text is read at most, so that the stack is enough for it. -/
def ceiling : Nat := 1000

def setting (name : String) : IO Text := return ((← IO.getEnv name).getD "").toList

def surroundings (invocation : Invocation) : IO Surroundings := do
  let configFile ← setting "TEMPLATER_CONFIG"
  let logLevel ← setting "TEMPLATER_LOG"
  let files ← filesAt (invocation.job.paths configFile)
  let input ← if invocation.job.readsInput then (← IO.getStdin).readToEnd else pure ""
  return { files, read := Yaml.read, ceiling, input := input.toList, configFile, logLevel }

def finish : Ending → IO UInt32
  | .replied reply => do
    IO.print reply.output.str
    IO.eprint reply.errors.str
    return UInt32.ofNat reply.code
  | .dismissed dismissal => do
    IO.print dismissal.output.str
    return UInt32.ofNat dismissal.code
  | .broken breakdown => do
    IO.eprintln breakdown.message.str
    return 1

end Stencil.CommandLine

open Stencil.CommandLine in
def main (arguments : List String) : IO UInt32 := do
  let arguments := arguments.map String.toList
  match Invocation.ofArguments arguments with
  | .error dismissal => finish (.dismissed dismissal)
  | .ok invocation => finish (run (← surroundings invocation) arguments)

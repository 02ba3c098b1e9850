import Stencil.CommandLine.Switch
import Stencil.Number.Numeral
import Stencil.Settings.Options
import Stencil.Evaluation.Run

/-! # Invocations

An invocation names a command, what it works on, and what its switches say. Words are taken
from left to right; a switch that asks for help or for the version ends that at once, and so
does a misuse. A word too many is a misuse only in the end.
-/
namespace Stencil.CommandLine

inductive Dismissal where
  | help
  | version
  | misuse
  deriving DecidableEq, Repr

inductive Depth where
  | number (depth : Int)
  /-- The switch was used without a number. -/
  | missing
  deriving DecidableEq, Repr

structure RenderJob where
  source : Text
  vars : Option Text := none
  config : Option Text := none
  keepLineEnds : Bool := false
  squash : Option SquashMode := none
  maxDepth : Option Depth := none
  deriving DecidableEq, Repr

structure CheckJob where
  source : Text
  vars : Option Text := none
  deriving DecidableEq, Repr

inductive Job where
  | render (job : RenderJob)
  | check (job : CheckJob)
  deriving DecidableEq, Repr

structure Invocation where
  logLevel : Option Level := none
  job : Job
  deriving DecidableEq, Repr

inductive Step where
  | plain (t : Text)
  | separator
  /-- Uses a switch with a value, if it has one. -/
  | use (switch : Switch) (value : Option Text)
  | surplus
  | misuse
  deriving DecidableEq, Repr

/-- A double dash is no value. -/
def attachedValue (attached : Text) : Option Text :=
  if attached = ['-', '-'] then none else some attached

/-- The one-letter switches that share a dash with the switch that comes first. -/
def sharing? (known : List Switch) (letters : Text) : Option (List Switch) :=
  if letters = [] then none else letters.mapM fun c => spelled? known ['-', c]

/-- The steps of a switch with something attached: its value, or more one-letter switches,
none of which takes a value. -/
def attachedSteps (known : List Switch) (switch : Switch) (short : Bool) (attached : Text) :
    List Step :=
  if switch.takesValue then [.use switch (attachedValue attached)]
  else
    match if short then sharing? known attached else none with
    | some switches => (switch :: switches).map (.use · none)
    | none => [.misuse]

/-- The steps of words, with the words that come after each of them. -/
def steps (known : List Switch) : List Word → List (Step × List Word)
  | [] => []
  | ⟨t, kind⟩ :: rest =>
    match kind, rest with
    | .plain, rest => (.plain t, rest) :: steps known rest
    | .separator, rest => (.separator, rest) :: steps known rest
    | .unknown, rest => (.surplus, rest) :: steps known rest
    | .ambiguous, rest => (.misuse, rest) :: steps known rest
    | .switch switch short (some attached), rest =>
      (attachedSteps known switch short attached).map (·, rest) ++ steps known rest
    | .switch switch _ none, rest =>
      if switch.takesValue then
        match rest with
        | ⟨value, .plain⟩ :: rest => (.use switch (some value), rest) :: steps known rest
        | rest => (.misuse, rest) :: steps known rest
      else (.use switch none, rest) :: steps known rest

def words? (known : List Switch) (arguments : List Text) : Except Dismissal (List Word) :=
  let words := words known arguments
  if words.any (·.kind == .ambiguous) then .error .misuse else .ok words

structure Given where
  source : Option Text := none
  vars : Option Text := none
  config : Option Text := none
  keepLineEnds : Bool := false
  squash : Option SquashMode := none
  maxDepth : Option Depth := none
  surplus : Bool := false
  deriving DecidableEq, Repr

namespace Given

def squashMode? : Option Text → Except Dismissal (Option SquashMode)
  | none => .ok none
  | some name =>
    match SquashMode.ofName? name with
    | some mode => .ok (some mode)
    | none => .error .misuse

def depth? : Option Text → Except Dismissal Depth
  | none => .ok .missing
  | some numeral =>
    match intOfText? numeral with
    | some depth => .ok (.number depth)
    | none => .error .misuse

/-- Takes a switch into account. A use without a value takes back those before it. -/
def use (g : Given) (value : Option Text) : Switch → Except Dismissal Given
  | .help => .error .help
  | .version => .error .version
  | .logLevel => .error .misuse
  | .vars => .ok { g with vars := value }
  | .config => .ok { g with config := value }
  | .keepLineEnds => .ok { g with keepLineEnds := true }
  | .squash => (squashMode? value).map fun squash => { g with squash }
  | .maxDepth => (depth? value).map fun depth => { g with maxDepth := some depth }

/-- Takes steps into account. The first plain word is the source; a separator may stand
before it or right after it. -/
def take : Given → List Step → Except Dismissal Given
  | g, [] => .ok g
  | g, .plain t :: .separator :: steps =>
    if g.source.isNone then take { g with source := some t } steps
    else take { g with surplus := true } steps
  | g, .plain t :: steps =>
    if g.source.isNone then take { g with source := some t } steps
    else take { g with surplus := true } steps
  | g, .separator :: steps => take { g with surplus := g.surplus || g.source.isSome } steps
  | g, .use switch value :: steps => (g.use value switch).bind fun g => take g steps
  | g, .surplus :: steps => take { g with surplus := true } steps
  | _, .misuse :: _ => .error .misuse

def ofArguments (known : List Switch) (arguments : List Text) : Except Dismissal Given := do
  let words ← words? known arguments
  take {} ((steps known words).map (·.1))

end Given

inductive Command where
  | render
  | check
  deriving DecidableEq, Repr

namespace Command

def name : Command → Text
  | render => "render".toList
  | check => "check".toList

def ofName? (name : Text) : Option Command := [render, check].find? (·.name == name)

def switches : Command → List Switch
  | render => [.help, .vars, .config, .keepLineEnds, .squash, .maxDepth]
  | check => [.help, .vars]

def job (command : Command) (source : Text) (g : Given) : Job :=
  match command with
  | render =>
    .render { source, vars := g.vars, config := g.config, keepLineEnds := g.keepLineEnds,
              squash := g.squash, maxDepth := g.maxDepth }
  | check => .check { source, vars := g.vars }

/-- The job that the arguments of a command describe, and whether a word is too much. -/
def jobOf (command : Command) (arguments : List Text) : Except Dismissal (Job × Bool) := do
  let g ← Given.ofArguments command.switches arguments
  match g.source with
  | none => throw .misuse
  | some source => return (command.job source g, g.surplus)

end Command

namespace Invocation

def generalSwitches : List Switch := [.help, .version, .logLevel]

def logLevels : List Level := [.debug, .info, .warning, .error]

/-- Takes steps into account up to the command, which takes all words after it. -/
def take : (logLevel : Option Level) → (surplus : Bool) → List (Step × List Word) →
    Except Dismissal Invocation
  | _, _, [] => .error .misuse
  | logLevel, surplus, (step, after) :: steps =>
    match step with
    | .plain name =>
      match Command.ofName? name with
      | none => .error .misuse
      | some command => do
        let (job, more) ← command.jobOf (after.map (·.text))
        if surplus || more then throw .misuse
        return { logLevel, job }
    | .use .help _ => .error .help
    | .use .version _ => .error .version
    | .use .logLevel value =>
      match value with
      | none => take none surplus steps
      | some name =>
        match logLevels.find? (·.name == name) with
        | some level => take (some level) surplus steps
        | none => .error .misuse
    | .use _ _ => .error .misuse
    | .surplus => take logLevel true steps
    | .separator => .error .misuse
    | .misuse => .error .misuse

def ofArguments (arguments : List Text) : Except Dismissal Invocation := do
  let words ← words? generalSwitches arguments
  take none false (steps generalSwitches words)

end Invocation

end Stencil.CommandLine

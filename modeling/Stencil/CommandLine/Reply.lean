import Stencil.CommandLine.Invocation
import Stencil.Files.Settings
import Stencil.Template.Basic

/-! # Replies

What the program answers to an invocation. A render goes through options, source and
variables, a check through source and variables, before the text is read and evaluated; the
first failure is the reply, and then nothing is written to the output.
-/
namespace Stencil.CommandLine

structure Surroundings where
  files : Files
  /-- Reads the documents with options and with variables. -/
  read : DocumentReader
  /-- How deep a text can be read, whatever depth is asked for. -/
  ceiling : Nat
  input : Text
  /-- The name of the file with options, for invocations that name none. -/
  configFile : Text
  /-- The name of the log level, for invocations that name none. -/
  logLevel : Text

structure Answer where
  output : Text
  code : Nat
  deriving DecidableEq, Repr

structure Reply where
  code : Nat
  output : Text
  errors : Text
  deriving DecidableEq, Repr

inductive Ending where
  | replied (reply : Reply)
  | dismissed (dismissal : Dismissal)
  | broken (breakdown : Breakdown)
  deriving DecidableEq, Repr

namespace Dismissal

def code : Dismissal → Nat
  | help => 0
  | version => 0
  | misuse => 2

def output : Dismissal → Text
  | version => "templater 0.1.0\n".toList
  | _ => []

end Dismissal

/-- The text that a source names: the input, a file, or itself. -/
def sourceText (s : Surroundings) : Text → Except Failure Text
  | ['-'] => .ok (unifyLineEnds s.input)
  | '@' :: name => do
    let path := Path.ofText name
    match ← s.files.text? .lockedSource path with
    | some t => return t
    | none => throw (.settings { cause := .noFile path.text })
  | t => .ok t

def path? (name : Option Text) : Option Path := name.bind Path.named?

def variablesOf (s : Surroundings) (name : Option Text) : Except Failure Mapping :=
  match path? name with
  | none => .ok []
  | some path => Variables.load s.files s.read path

def depthLimit? : Option Depth → Except Failure (Option Nat)
  | none => .ok none
  | some .missing => .error (.broken .missingDepth)
  | some (.number (.ofNat (n + 1))) => .ok (some (n + 1))
  | some (.number depth) =>
    .error (.ofSetting { cause := .notADepth (.int depth), path := [OptionName.maxDepth.text] })

namespace RenderJob

def options (job : RenderJob) (s : Surroundings) : Except Failure Options := do
  let options ← Options.loadNamed s.files s.read (path? job.config) s.configFile
  let limit ← depthLimit? job.maxDepth
  return {
    trimEndLine := options.trimEndLine && !job.keepLineEnds
    squash := job.squash.getD options.squash
    maxDepth := limit.getD options.maxDepth }

def outcome (job : RenderJob) (s : Surroundings) : Outcome Answer :=
  (Outcome.ofExcept (job.options s)).andThen fun options =>
    (Outcome.ofExcept (sourceText s job.source)).andThen fun source =>
      (Outcome.ofExcept (variablesOf s job.vars)).andThen fun vars =>
        (Template.render s.ceiling .standard options vars source).map fun t => ⟨t, 0⟩

end RenderJob

def CheckJob.outcome (job : CheckJob) (s : Surroundings) : Outcome Answer :=
  (Outcome.ofExcept (sourceText s job.source)).andThen fun source =>
    (Outcome.ofExcept (variablesOf s job.vars)).andThen fun vars =>
      (Template.check s.ceiling .standard {} vars source).map fun holds =>
        if holds then ⟨"true\n".toList, 0⟩ else ⟨"false\n".toList, 1⟩

def Job.outcome (s : Surroundings) : Job → Outcome Answer
  | render job => job.outcome s
  | check job => job.outcome s

def sourcePath? : Text → Option Path
  | '@' :: name => some (.ofText name)
  | _ => none

def Job.paths (configFile : Text) : Job → List Path
  | render job =>
    [Options.path? (path? job.config) configFile, sourcePath? job.source, path? job.vars].filterMap id
  | check job => [sourcePath? job.source, path? job.vars].filterMap id

def Job.readsInput : Job → Bool
  | render job => job.source == ['-']
  | check job => job.source == ['-']

/-- Small letters outside ASCII with capitals in ASCII. -/
def foreignCapitals : List (Char × Text) :=
  [('ß', ['S', 'S']), ('ı', ['I']), ('ſ', ['S']), ('ﬀ', ['F', 'F']), ('ﬁ', ['F', 'I']),
   ('ﬂ', ['F', 'L']), ('ﬃ', ['F', 'F', 'I']), ('ﬄ', ['F', 'F', 'L']), ('ﬅ', ['S', 'T']),
   ('ﬆ', ['S', 'T'])]

def capitals (c : Char) : Text := (foreignCapitals.lookup c).getD [c.toUpper]

/-- Log levels by name, and names that the log has for other things. -/
def levelNames : List (Text × Except Breakdown Level) :=
  [("DEBUG".toList, .ok .debug), ("INFO".toList, .ok .info), ("NOTSET".toList, .ok .warning),
   ("WARNING".toList, .ok .warning), ("WARN".toList, .ok .warning), ("ERROR".toList, .ok .error),
   ("CRITICAL".toList, .ok .critical), ("FATAL".toList, .ok .critical),
   ("BASIC_FORMAT".toList, .error .formatAsLevel), ("_STYLES".toList, .error .stylesAsLevel)]

/-- The level that a name in letters of either case stands for. A name that the log does not
know stands for warnings. -/
def levelOfName (name : Text) : Except Breakdown Level :=
  (levelNames.lookup (name.trim.flatMap capitals)).getD (.ok .warning)

def logLines (least : Level) (events : List Event) : Text :=
  events.flatMap fun
    | .message level t =>
      if least.severity ≤ level.severity then '[' :: level.name ++ ']' :: ' ' :: t ++ ['\n'] else []
    | .call _ _ _ => []

def Invocation.leastLevel (invocation : Invocation) (s : Surroundings) : Except Breakdown Level :=
  match invocation.logLevel with
  | some level => .ok level
  | none => levelOfName s.logLevel

def Ending.ofOutcome (least : Level) (o : Outcome Answer) : Ending :=
  let log := logLines least o.events
  match o.result with
  | .ok answer => .replied ⟨answer.code, answer.output, log⟩
  | .error (.broken breakdown) => .broken breakdown
  | .error failure => .replied ⟨2, [], log ++ failure.message.trimEnd ++ ['\n']⟩

def run (s : Surroundings) (arguments : List Text) : Ending :=
  match Invocation.ofArguments arguments with
  | .error dismissal => .dismissed dismissal
  | .ok invocation =>
    match invocation.leastLevel s with
    | .error breakdown => .broken breakdown
    | .ok least => .ofOutcome least (invocation.job.outcome s)

end Stencil.CommandLine

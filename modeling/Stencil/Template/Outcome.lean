import Stencil.Evaluation.Run
import Stencil.Settings.Problem
import Stencil.Source.Fault
import Stencil.Template.Breakdown

/-! # Outcomes

The outcome of a job is a result or the first failure, together with the events up to
there.
-/
namespace Stencil

def Breakdown.ofUnwritable : Unwritable → Breakdown
  | .longNumeral => longNumeral
  | .foreignKey => foreignKey

/-- An evaluation that stopped, with the text it evaluates if there is one. -/
structure Stop where
  source : Option Text
  problem : EvalProblem

namespace Stop

def shortMessage (stop : Stop) : Text :=
  match stop.problem with
  | .unknownFunction name _ => "Unknown function \"".toList ++ name ++ ['"']
  | .notABlock kind => "Unknown block type: ".toList ++ kind
  | .method message => message
  | .longIndex => Breakdown.longNumeral.message
  | .unwritable cause => (Breakdown.ofUnwritable cause).message

/-- The message, for an unknown function with a picture of the place of its call. -/
def message (stop : Stop) : Text :=
  match stop.problem, stop.source with
  | .unknownFunction name offset, some source =>
    Source.picture source (min offset source.length) name.length stop.shortMessage
  | _, _ => stop.shortMessage

def function (stop : Stop) : Text :=
  match stop.problem with
  | .unknownFunction name _ => name
  | _ => []

end Stop

inductive Failure where
  | refused (refusal : Refusal)
  | stopped (stop : Stop)
  | settings (problem : SettingProblem)
  | broken (breakdown : Breakdown)

namespace Failure

def ofEval (source : Option Text) : EvalProblem → Failure
  | .longIndex => broken .longNumeral
  | .unwritable cause => broken (.ofUnwritable cause)
  | problem => stopped ⟨source, problem⟩

/-- What a problem with settings leads to. One whose message cannot be written is a breakdown. -/
def ofSetting (problem : SettingProblem) : Failure :=
  if problem.cause.isWritable then settings problem else broken .longNumeral

def message : Failure → Text
  | refused refusal => refusal.picture
  | stopped stop => stop.message
  | settings problem => problem.message
  | broken breakdown => breakdown.message

end Failure

structure Outcome (α : Type) where
  result : Except Failure α
  events : List Event := []

namespace Outcome

def map (f : α → β) (o : Outcome α) : Outcome β := ⟨o.result.map f, o.events⟩

def andThen (o : Outcome α) (f : α → Outcome β) : Outcome β :=
  match o.result with
  | .ok a =>
    let next := f a
    ⟨next.result, o.events ++ next.events⟩
  | .error failure => ⟨.error failure, o.events⟩

def fail (failure : Failure) : Outcome α := ⟨.error failure, []⟩

def note (level : Level) (t : Text) : Outcome Unit := ⟨.ok (), [.message level t]⟩

def ofExcept (result : Except Failure α) : Outcome α := ⟨result, []⟩

def warnings (o : Outcome α) : List Text :=
  o.events.filterMap fun
    | .message .warning t => some t
    | _ => none

end Outcome

end Stencil

import Stencil.Evaluation.Block
import Stencil.Fragment.Output
import Stencil.Grammar.Document
import Stencil.Settings.OfMapping
import Stencil.Template.Outcome
import Stencil.Tree.Printing

/-! # Templates and conditions as texts

Reading, evaluating and settling in one go.
-/
namespace Stencil

namespace Template

def renderBlocks (methods : Registry) (options : Options) (source : Option Text)
    (vars : Mapping) (blocks : List Block) : Outcome Text :=
  let run := evalBlocks methods blocks (.start vars)
  match run.result with
  | .error problem => ⟨.error (.ofEval source problem), run.events⟩
  | .ok (_, fragments) =>
    let count := "Rendering ".toList ++ natText fragments.length ++ " fragments".toList
    let warnings := (Fragment.warnings fragments).map (Event.message .warning)
    ⟨.ok (Fragment.output options fragments), run.events ++ .message .debug count :: warnings⟩

def checkCondition (methods : Registry) (source : Option Text) (vars : Mapping)
    (condition : Condition) : Outcome Bool :=
  let run := condition.eval ⟨.start vars, methods⟩
  ⟨run.result.mapError (.ofEval source), run.events⟩

section Reading
variable (ceiling : Nat)

/-- The refusal of a text under a depth limit. At the ceiling the place is noted. -/
def refuse (source : Text) (limit : Int) (fault : Fault) : Outcome α :=
  let refusal : Refusal := ⟨source, ceiling, limit, fault⟩
  let note := "Recursion limit hit at offset ".toList ++ natText fault.offset
  ⟨.error (.refused refusal), if refusal.isCeiling then [.message .debug note] else []⟩

def read (limit : Int) (source : Text) : Outcome (List Block) :=
  match readBlocks (levelsFor ceiling limit) source with
  | .error fault => refuse ceiling source limit fault
  | .ok blocks =>
    let note := "Parsed template -> ".toList ++ natText blocks.length ++ " top-level nodes".toList
    ⟨.ok blocks, [.message .debug note]⟩

def readCondition (limit : Int) (source : Text) : Outcome Condition :=
  match readLeadingCondition (levelsFor ceiling limit) source with
  | .error fault => refuse ceiling source limit fault
  | .ok (condition, c) =>
    let note := [Event.message .debug ("Parsed condition -> ".toList ++ condition.print)]
    match checkRest c with
    | .error fault => ⟨.error (.refused ⟨source, ceiling, limit, fault⟩), note⟩
    | .ok () => ⟨.ok condition, note⟩

def render (methods : Registry) (options : Options) (vars : Mapping) (source : Text) :
    Outcome Text :=
  (read ceiling options.maxDepth source).andThen (renderBlocks methods options (some source) vars)

def check (methods : Registry) (options : Options) (vars : Mapping) (source : Text) :
    Outcome Bool :=
  ((readCondition ceiling options.maxDepth source).andThen
    (checkCondition methods (some source) vars)).andThen fun holds =>
      (Outcome.note .debug ("Condition evaluated -> ".toList ++ (Value.bool holds).shown)).map
        fun _ => holds

end Reading

end Template

end Stencil

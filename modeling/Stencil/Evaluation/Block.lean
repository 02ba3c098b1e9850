import Stencil.Evaluation.Expression
import Stencil.Fragment.Basic

/-! # Evaluating blocks

A sequence of blocks turns scopes into scopes and a list of fragments. The body of a
conditional or loop runs in a frame of its own, which is closed after it.
-/
namespace Stencil

abbrev Rendering := Scopes → Run (Scopes × List Fragment)

namespace Rendering

def within (frame : Frame) (body : Rendering) : Rendering := fun s => do
  let (s, fragments) ← body (s.push frame)
  pure (s.pop, fragments)

def andThen (first second : Rendering) : Rendering := fun s => do
  let (s, fragments) ← first s
  let (s, more) ← second s
  pure (s, fragments ++ more)

def nothing : Rendering := fun s => pure (s, [])

def forEach (name : Text) (body : Rendering) : List Value → Rendering
  | [] => nothing
  | v :: vs => andThen (within [(.text name, v)] body) (forEach name body vs)

/-- Runs a body for `current`, `current + 1`, … as long as they are below `last`, at most
`rounds` times. -/
def forRange (name : Text) (body : Rendering) (last : Number) : (rounds : Nat) → Number → Rendering
  | 0, _ => nothing
  | rounds + 1, current =>
    if current.below last then
      andThen (within [(.text name, .text current.text)] body)
        (forRange name body last rounds current.succ)
    else nothing

end Rendering

def rangeWarning (name : Text) : Text :=
  "Non-numeric range bound in loop '".toList ++ name ++ "', skipping".toList

/-- The values of an array, or the texts of both bounds of a range, are there before the
first round. -/
def LoopSource.run (methods : Registry) (name : Text) (body : Rendering) : LoopSource → Rendering
  | .items args, s => do
    let vs ← evalArgs ⟨s, methods⟩ args
    Rendering.forEach name body vs s
  | .range first last, s => do
    let a ← first.evalText ⟨s, methods⟩
    let b ← last.evalText ⟨s, methods⟩
    match Number.ofText? a, Number.ofText? b with
    | some p, some q => Rendering.forRange name body q (Number.stepsBetween p q) p s
    | _, _ => do
      Run.warn (rangeWarning name)
      pure (s, [])

mutual

def Block.eval (methods : Registry) : Block → Rendering
  | .text t, s => pure (s, [.string t])
  | .branch condition body, s => do
    let holds ← condition.eval ⟨s, methods⟩
    if holds then Rendering.within [] (evalBlocks methods body) s else pure (s, [])
  | .loop name source body, s => source.run methods name (evalBlocks methods body) s
  | .set name arg, s => do
    let v ← arg.eval ⟨s, methods⟩
    pure (s.set name v, [])
  | .conf key arg, s => do
    let t ← arg.evalText ⟨s, methods⟩
    pure (s, [.conf key t])
  | .print arg, s => do
    let t ← arg.evalText ⟨s, methods⟩
    pure (s, [.value t])
  | .trim direction, s => pure (s, [.trim direction])
  | .newline, s => pure (s, [.value ['\n']])
  | .foreign kind, _ => .fail (.notABlock kind)

def evalBlocks (methods : Registry) : List Block → Rendering
  | [], s => pure (s, [])
  | block :: blocks, s => Rendering.andThen (block.eval methods) (evalBlocks methods blocks) s

end

end Stencil

import Stencil.Evaluation.Method
import Stencil.Evaluation.Run
import Stencil.Evaluation.Scope
import Stencil.Tree.Condition

/-! # Evaluating arguments and conditions

Arguments are evaluated in fixed scopes. A path is walked frame by frame, the innermost
first. An index on it is evaluated once, when the first frame gets that far.
-/
namespace Stencil

structure Env where
  scopes : Scopes
  methods : Registry

namespace Env

def method (env : Env) (function : Text) (offset : Nat) : Run Method :=
  match env.methods function offset with
  | some method => pure method
  | none => .fail (.unknownFunction function offset)

/-- Calls a method, leaving a trace of the call. -/
def invoke (name : Text) (method : Method) (v : Value) (params : Params) : Run Value := do
  .emit (.call name v params)
  match method v params with
  | .ok result => pure result
  | .error (.failed message) => .fail (.method message)
  | .error (.unwritable cause) => .fail (.unwritable cause)

end Env

mutual

def Arg.eval (env : Env) : Arg → Run Value
  | .mk operand calls => do
    let v ← operand.eval env
    evalCalls env calls v

def Operand.eval (env : Env) : Operand → Run Value
  | .literal t => pure (.text t)
  | .variable root steps =>
    match env.scopes.roots root with
    | [] => pure (.text [])
    | place :: roots => evalSteps env steps ⟨[], place, roots⟩

/-- Takes the steps that are left. A path that no frame resolves gives the empty text. -/
def evalSteps (env : Env) : List Step → Walk → Run Value
  | [], walk => pure walk.arrival
  | step :: steps, walk => do
    let key ← step.key env
    match walk.take key with
    | .found walk => evalSteps env steps walk
    | .nowhere => pure (.text [])
    | .unreadable => .fail .longIndex

def Step.key (env : Env) : Step → Run Text
  | .field name => pure name
  | .index arg => do
    let v ← arg.eval env
    .ofWriting v.display

def evalCalls (env : Env) : List Call → Value → Run Value
  | [], v => pure v
  | call :: calls, v => do
    let v ← call.eval env v
    evalCalls env calls v

/-- A method has to be known before its parameters are evaluated. -/
def Call.eval (env : Env) : Call → Value → Run Value
  | .mk function params offset, v => do
    let method ← env.method function offset
    let given ← evalParams env params
    Env.invoke function method v (.ofList given)

def evalParams (env : Env) : List Param → Run (List (Text × Text))
  | [] => pure []
  | param :: params => do
    let entry ← param.eval env
    let entries ← evalParams env params
    pure (entry :: entries)

def Param.eval (env : Env) : Param → Run (Text × Text)
  | .mk key none => pure (key, [])
  | .mk key (some arg) => do
    let v ← arg.eval env
    let t ← Run.ofWriting v.display
    pure (key, t)

end

def evalArgs (env : Env) : List Arg → Run (List Value)
  | [] => pure []
  | arg :: args => do
    let v ← arg.eval env
    let vs ← evalArgs env args
    pure (v :: vs)

def Arg.evalText (env : Env) (arg : Arg) : Run Text := do
  let v ← arg.eval env
  .ofWriting v.display

def Comparison.eval (env : Env) (left right : Arg) : Comparison → Run Bool
  | .eq => do
    let a ← left.eval env
    let b ← right.eval env
    pure (a.equal b)
  | .like => do
    let t ← left.evalText env
    let pattern ← right.evalText env
    pure (pattern.isLike t)

def Connective.apply : Connective → Bool → Bool → Bool
  | .and, a, b => a && b
  | .or, a, b => a || b

/-- Both sides of every connective are evaluated, whatever the first one gives. -/
def Condition.eval (env : Env) : Condition → Run Bool
  | .holds arg => do
    let v ← arg.eval env
    .ofWriting v.isTruthy
  | .brackets inner => inner.eval env
  | .join connective left right => do
    let a ← left.eval env
    let b ← right.eval env
    pure (connective.apply a b)
  | .compare comparison negated left right => do
    let holds ← comparison.eval env left right
    pure (holds != negated)
  | .among negated arg items => do
    let v ← arg.eval env
    let vs ← evalArgs env items
    pure (v.isAmong vs != negated)

end Stencil

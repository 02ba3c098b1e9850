import Stencil.Value.Display

/-! # Runs

A run is what an evaluation did: its result or the problem that stopped it, and the events
on the way, which are kept in both cases.
-/
namespace Stencil

inductive Level where
  | debug
  | info
  | warning
  | error
  | critical
  deriving DecidableEq, Repr

namespace Level

def name : Level → Text
  | debug => "DEBUG".toList
  | info => "INFO".toList
  | warning => "WARNING".toList
  | error => "ERROR".toList
  | critical => "CRITICAL".toList

def severity : Level → Nat
  | debug => 1
  | info => 2
  | warning => 3
  | error => 4
  | critical => 5

end Level

inductive Event where
  /-- A method was called with a value and its parameters. -/
  | call (name : Text) (value : Value) (params : List (Text × Text))
  | message (level : Level) (t : Text)

inductive EvalProblem where
  | unknownFunction (name : Text) (offset : Nat)
  | notABlock (kind : Text)
  /-- A method failed with a message of its own. -/
  | method (message : Text)
  /-- An index has more digits than are read. -/
  | longIndex
  /-- A value has no text where one is asked for. -/
  | unwritable (cause : Unwritable)
  deriving DecidableEq, Repr

structure Run (α : Type) where
  result : Except EvalProblem α
  events : List Event

namespace Run

protected def pure (a : α) : Run α := ⟨.ok a, []⟩

protected def bind (r : Run α) (f : α → Run β) : Run β :=
  match r.result with
  | .ok a =>
    let next := f a
    ⟨next.result, r.events ++ next.events⟩
  | .error problem => ⟨.error problem, r.events⟩

instance : Monad Run where
  pure := Run.pure
  bind := Run.bind

def fail (problem : EvalProblem) : Run α := ⟨.error problem, []⟩

def ofWriting (written : Except Unwritable α) : Run α := ⟨written.mapError .unwritable, []⟩

def emit (event : Event) : Run Unit := ⟨.ok (), [event]⟩

def warn (t : Text) : Run Unit := emit (.message .warning t)

@[simp] theorem bind_ok (a : α) (events : List Event) (f : α → Run β) :
    Run.bind ⟨.ok a, events⟩ f = ⟨(f a).result, events ++ (f a).events⟩ := rfl

@[simp] theorem bind_error (problem : EvalProblem) (events : List Event) (f : α → Run β) :
    Run.bind ⟨.error problem, events⟩ f = ⟨.error problem, events⟩ := rfl

theorem pure_bind (a : α) (f : α → Run β) : Run.bind (Run.pure a) f = f a := rfl

theorem bind_pure (r : Run α) : Run.bind r Run.pure = r := by
  rcases r with ⟨_ | a, events⟩ <;> simp [Run.pure]

theorem bind_assoc (r : Run α) (f : α → Run β) (g : β → Run γ) :
    Run.bind (Run.bind r f) g = Run.bind r fun a => Run.bind (f a) g := by
  rcases r with ⟨_ | a, events⟩
  · rfl
  · rcases h : f a with ⟨_ | b, more⟩ <;> simp [h]

instance : LawfulMonad Run := LawfulMonad.mk' (m := Run) bind_pure pure_bind bind_assoc

theorem bind_of_ok {r : Run α} {a : α} (h : r.result = .ok a) (f : α → Run β) :
    r >>= f = ⟨(f a).result, r.events ++ (f a).events⟩ := by
  obtain ⟨result, events⟩ := r
  cases h
  rfl

theorem bind_of_error {r : Run α} {problem : EvalProblem} (h : r.result = .error problem)
    (f : α → Run β) : r >>= f = ⟨.error problem, r.events⟩ := by
  obtain ⟨result, events⟩ := r
  cases h
  rfl

end Run

end Stencil

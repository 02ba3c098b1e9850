import Stencil.Proofs.Evaluation.Scoping
import Stencil.Proofs.Except

/-! # The operands of a condition

A condition evaluates the arguments that stand in it one after the other, all of them and each
of them once, whatever their values and whatever the comparisons and connectives between them
give. Nothing cuts this short but an argument that fails, or one whose text is asked for and whose
value has none.
-/
namespace Stencil

/-- An argument of a condition, which is there for its value, or for its text, which is written
as soon as the argument is evaluated. -/
inductive Demand where
  | value (arg : Arg)
  | text (arg : Arg)

namespace Demand

def arg : Demand → Arg
  | value arg => arg
  | text arg => arg

def Met (env : Env) : Demand → Prop
  | value arg => ∃ v, (arg.eval env).result = .ok v
  | text arg => ∃ v t, (arg.eval env).result = .ok v ∧ v.display = .ok t

def FailsWith (env : Env) (problem : EvalProblem) : Demand → Prop
  | value arg => (arg.eval env).result = .error problem
  | text arg => (arg.eval env).result = .error problem ∨ ∃ v cause,
      (arg.eval env).result = .ok v ∧ v.display = .error cause ∧ problem = .unwritable cause

end Demand

/-- The arguments that stand in a condition, in the order in which they are written. An argument on
its own is there for its text, which has to be something, and so are those that `like` compares. -/
def Condition.operands : Condition → List Demand
  | .holds arg => [.text arg]
  | .brackets inner => inner.operands
  | .join _ left right => left.operands ++ right.operands
  | .compare .eq _ left right => [.value left,.value right]
  | .compare .like _ left right => [.text left,.text right]
  | .among _ arg items => .value arg :: items.map .value

def AllMet (env : Env) (operands : List Demand) : Prop := ∀ operand ∈ operands, operand.Met env

/-- What happens while the arguments are evaluated, each of them once. -/
def eventsOf (env : Env) (operands : List Demand) : List Event :=
  operands.flatMap fun operand => (operand.arg.eval env).events

/-- The run evaluates the arguments one after the other, each once. It comes to an end if they
all give what is asked of them, and it stops at the first that does not, for its reason. -/
inductive InTurn (env : Env) (operands : List Demand) : Run α → Prop where
  | ended (a : α) (h : AllMet env operands) : InTurn env operands ⟨.ok a,eventsOf env operands⟩
  | stopped {before after : List Demand} {operand : Demand} {problem : EvalProblem}
    (hoperands : operands = before ++ operand :: after) (h : AllMet env before)
    (hfails : operand.FailsWith env problem) :
    InTurn env operands ⟨.error problem,eventsOf env (before ++ [operand])⟩

section
variable {env : Env} {operands more : List Demand}

theorem allMet_nil (env : Env) : AllMet env [] := List.forall_mem_nil _

theorem AllMet.append (h : AllMet env operands) (h' : AllMet env more) :
    AllMet env (operands ++ more) :=
  List.forall_mem_append.mpr ⟨h,h'⟩

theorem eventsOf_append (env : Env) (operands more : List Demand) :
    eventsOf env (operands ++ more) = eventsOf env operands ++ eventsOf env more :=
  List.flatMap_append

theorem eventsOf_singleton (env : Env) (operand : Demand) :
    eventsOf env [operand] = (operand.arg.eval env).events := by
  simp [eventsOf]

theorem Arg.events_evalText (env : Env) (arg : Arg) :
    (arg.evalText env).events = (arg.eval env).events := by
  unfold evalText
  cases h : (arg.eval env).result with
  | error problem => rw [Run.bind_of_error h]
  | ok v =>
    rw [Run.bind_of_ok h]
    exact List.append_nil _

namespace InTurn

theorem pure (env : Env) (a : α) : InTurn env [] (Pure.pure a : Run α) :=
  ended a (allMet_nil env)

/-- A run with the events of a single argument ends or stops as that does. -/
theorem single {r : Run α} {operand : Demand} (hevents : r.events = (operand.arg.eval env).events)
    (hok : ∀ a, r.result = .ok a → operand.Met env)
    (herror : ∀ problem, r.result = .error problem → operand.FailsWith env problem) :
    InTurn env [operand] r := by
  rw [← eventsOf_singleton] at hevents
  rcases r with ⟨problem | a,events⟩ <;> cases hevents
  · exact stopped (show [operand] = [] ++ [operand] from rfl) (allMet_nil env) (herror problem rfl)
  · exact ended a (List.forall_mem_singleton.mpr (hok a rfl))

theorem value (env : Env) (arg : Arg) : InTurn env [.value arg] (arg.eval env) :=
  single rfl (fun v h => ⟨v,h⟩) fun _ h => h

theorem text (env : Env) (arg : Arg) : InTurn env [.text arg] (arg.evalText env) := by
  refine single (arg.events_evalText env) (fun t ht => ?_) fun problem hproblem => ?_
  · obtain ⟨v,hv,hwritten⟩ := Run.result_bind_eq_ok.mp ht
    exact ⟨v,t,hv,mapError_eq_ok.mp hwritten⟩
  · cases h : (arg.eval env).result with
    | error stop =>
      rw [Arg.evalText,Run.bind_of_error h] at hproblem
      cases hproblem
      exact Or.inl h
    | ok v =>
      rw [Arg.evalText_of_ok h] at hproblem
      obtain ⟨cause,hcause,rfl⟩ := mapError_eq_error.mp hproblem
      exact Or.inr ⟨v,cause,h,hcause,rfl⟩

/-- What follows a run evaluates its arguments after those of the run, whatever that gives. -/
theorem bind {r : Run α} {f : α → Run β} (h : InTurn env operands r)
    (hf : ∀ a, InTurn env more (f a)) : InTurn env (operands ++ more) (r >>= f) := by
  cases h with
  | ended a h =>
    rw [Run.bind_of_ok rfl]
    have hmore := hf a
    generalize f a = next at hmore
    cases hmore with
    | ended b h' =>
      rw [← eventsOf_append]
      exact ended b (h.append h')
    | stopped hmore h' hfails =>
      rw [← eventsOf_append,← List.append_assoc]
      exact stopped (by rw [hmore,List.append_assoc]) (h.append h') hfails
  | stopped hoperands h hfails =>
    rw [Run.bind_of_error rfl]
    exact stopped (by rw [hoperands,List.append_assoc,List.cons_append]) h hfails

/-- What is made of a result in the end evaluates no further argument. -/
theorem map {r : Run α} (h : InTurn env operands r) (g : α → β) :
    InTurn env operands (r >>= fun a => Pure.pure (g a)) := by
  simpa using h.bind fun a => pure env (g a)

theorem evalArgs (env : Env) (args : List Arg) :
    InTurn env (args.map .value) (evalArgs env args) := by
  induction args with
  | nil => exact pure env []
  | cons first args ih => exact (value env first).bind fun v => ih.map (v :: ·)

end InTurn

end

/-- A value holds if its text is not empty. -/
theorem Condition.eval_holds (env : Env) (arg : Arg) :
    (Condition.holds arg).eval env = arg.evalText env >>= fun t => pure (t != []) := by
  rw [eval,Arg.evalText,bind_assoc]
  refine congrArg (arg.eval env >>= ·) (funext fun v => ?_)
  rw [Value.isTruthy]
  cases v.display <;> rfl

/-- Both sides of every connective and comparison are evaluated, and the items of an array behind
the argument that is looked for among them. -/
theorem Condition.inTurn (env : Env) (c : Condition) : InTurn env c.operands (c.eval env) := by
  induction c with
  | holds first =>
    rw [eval_holds]
    exact (InTurn.text env first).map (· != [])
  | brackets inner ih => exact ih
  | join connective left right ihl ihr => exact ihl.bind fun a => ihr.map (connective.apply a)
  | compare comparison negated left right =>
    cases comparison with
    | eq => exact ((InTurn.value env left).bind fun a => (InTurn.value env right).map a.equal).map _
    | like =>
      exact ((InTurn.text env left).bind fun t => (InTurn.text env right).map (·.isLike t)).map _
  | among negated first items =>
    exact (InTurn.value env first).bind fun v => (InTurn.evalArgs env items).map (v.isAmong · != negated)

/-- Either all arguments in a condition give what is asked of them, and it has a truth value and the
events are theirs, one after the other in the order of the source; or it stops at the first one that
does not, and the events are those up to there. An argument fails for its own reason; the condition
adds only that the text which it asks for may not be there. -/
theorem eval_operands (env : Env) (c : Condition) :
    ((∃ holds, (c.eval env).result = .ok holds) ∧ (∀ operand ∈ c.operands, operand.Met env) ∧
      (c.eval env).events = c.operands.flatMap fun operand => (operand.arg.eval env).events) ∨
    ∃ before operand after problem, c.operands = before ++ operand :: after ∧
      (∀ earlier ∈ before, earlier.Met env) ∧
      operand.FailsWith env problem ∧ (c.eval env).result = .error problem ∧
      (c.eval env).events = (before.flatMap fun earlier => (earlier.arg.eval env).events) ++
        (operand.arg.eval env).events := by
  have h := c.inTurn env
  generalize c.eval env = run at h ⊢
  cases h with
  | ended holds h => exact Or.inl ⟨⟨holds,rfl⟩,h,rfl⟩
  | @stopped before after operand problem hoperands h hfails =>
    refine Or.inr ⟨before,operand,after,problem,hoperands,h,hfails,rfl,?_⟩
    rw [← eventsOf_singleton]
    exact eventsOf_append env before [operand]

/-- Both sides evaluate, and yet the condition fails before the method on the right is called: the
value on the left has no text, which tells whether it holds. -/
theorem eval_operands_textless :
    let env : Env := ⟨.start [(.text ['m'],.mapping [(.tuple [.text ['1'],.text ['2']],.text ['x'])])],
      .ofList [(['t'],fun v _ => .ok v)]⟩
    let left : Arg := .mk (.variable ['m'] []) []
    let right : Arg := .mk (.literal ['x']) [.mk ['t'] [] 0]
    (left.eval env).result = .ok (.mapping [(.tuple [.text ['1'],.text ['2']],.text ['x'])]) ∧
      (left.eval env).events = [] ∧ (right.eval env).result = .ok (.text ['x']) ∧
      (right.eval env).events = [.call ['t'] (.text ['x']) []] ∧
      ((Condition.join .and (.holds left) (.holds right)).eval env).result =
        .error (.unwritable .foreignKey) ∧
      ((Condition.join .and (.holds left) (.holds right)).eval env).events = [] :=
  ⟨rfl,rfl,rfl,rfl,rfl,rfl⟩

end Stencil

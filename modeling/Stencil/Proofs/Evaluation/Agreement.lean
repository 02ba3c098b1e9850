import Stencil.Proofs.Tree.References
import Stencil.Proofs.Tree.Relocation

/-! # What the evaluation of an argument depends on

Two environments in which the roots and methods mentioned in an argument or condition are the
same lead to the same run. The second run may be that of a tree with other offsets.
-/
namespace Stencil

namespace Run

/-- Two runs with the same events that both come to an end, with results that `R` relates, or
both stop, for problems that `P` relates. -/
inductive Matches (P : EvalProblem → EvalProblem → Prop) (R : α → β → Prop) : Run α → Run β → Prop where
  | ended {a : α} {b : β} (h : R a b) (events : List Event) :
    Matches P R ⟨.ok a,events⟩ ⟨.ok b,events⟩
  | stopped {p q : EvalProblem} (h : P p q) (events : List Event) :
    Matches P R ⟨.error p,events⟩ ⟨.error q,events⟩

namespace Matches
variable {P : EvalProblem → EvalProblem → Prop} {R : α → β → Prop} {r : Run α} {r' : Run β}

theorem pure {a : α} {b : β} (h : R a b) : Matches P R (Pure.pure a) (Pure.pure b) :=
  ended h []

theorem fail {p q : EvalProblem} (h : P p q) : Matches P R (Run.fail p) (Run.fail q) :=
  stopped h []

theorem after (events : List Event) (h : Matches P R r r') :
    Matches P R ⟨r.result,events ++ r.events⟩ ⟨r'.result,events ++ r'.events⟩ := by
  cases h with
  | ended h more => exact ended h (events ++ more)
  | stopped h more => exact stopped h (events ++ more)

theorem bind_of_result {S : γ → δ → Prop} {g : α → Run γ} {g' : β → Run δ} (h : Matches P R r r')
    (hg : ∀ a b, r.result = .ok a → r'.result = .ok b → R a b → Matches P S (g a) (g' b)) :
    Matches P S (r >>= g) (r' >>= g') := by
  cases h with
  | ended hab events => exact (hg _ _ rfl rfl hab).after events
  | stopped hpq events => exact stopped hpq events

theorem bind {S : γ → δ → Prop} {g : α → Run γ} {g' : β → Run δ} (h : Matches P R r r')
    (hg : ∀ a b, R a b → Matches P S (g a) (g' b)) : Matches P S (r >>= g) (r' >>= g') :=
  h.bind_of_result fun a b _ _ => hg a b

theorem map_right {S : α → γ → Prop} {g : β → γ} (h : Matches P R r r')
    (hg : ∀ a b, R a b → S a (g b)) : Matches P S r ⟨r'.result.map g,r'.events⟩ := by
  cases h with
  | ended hab events => exact ended (hg _ _ hab) events
  | stopped hpq events => exact stopped hpq events

end Matches
end Run

/-- The problem `q` is `p` at the offset that `f` gives, and an unknown function is one of those
mentioned. -/
structure EvalProblem.Moved (f : Nat → Nat) (refs : List Reference) (p q : EvalProblem) : Prop where
  problem : q = p.relocate f
  mentioned : ∀ ⦃name offset⦄, p = .unknownFunction name offset → .method name offset ∈ refs

/-- In both environments the mentioned roots have the same values and the mentioned calls find
the same methods, in the second one at the offsets that `f` gives. -/
structure Env.Agree (f : Nat → Nat) (refs : List Reference) (env env' : Env) : Prop where
  roots : ∀ ⦃root⦄, .variable root ∈ refs → env'.scopes.roots root = env.scopes.roots root
  methods : ∀ ⦃name offset⦄, .method name offset ∈ refs →
    env'.methods name (f offset) = env.methods name offset

section
variable {f : Nat → Nat} {refs : List Reference} {env env' : Env}
open Run EvalProblem

theorem matches_ofWriting (written : Except Unwritable α) :
    Matches (Moved f refs) Eq (Run.ofWriting written) (Run.ofWriting written) := by
  cases written with
  | ok a => exact .ended rfl []
  | error cause => exact .stopped ⟨rfl,nofun⟩ []

theorem Env.Agree.method (h : Env.Agree f refs env env') {name : Text} {offset : Nat}
    (hmem : .method name offset ∈ refs) :
    Matches (Moved f refs) Eq (env.method name offset) (env'.method name (f offset)) := by
  unfold Env.method
  rw [h.methods hmem]
  cases env.methods name offset with
  | some method => exact .pure rfl
  | none =>
    refine .fail ⟨rfl,?_⟩
    rintro _ _ ⟨⟩
    exact hmem

theorem Env.matches_invoke (name : Text) (method : Method) (v : Value) (params : Params) :
    Matches (Moved f refs) Eq (Env.invoke name method v params)
      (Env.invoke name method v params) := by
  refine .bind (.ended (R := Eq) rfl [.call name v params]) ?_
  intro _ _ _
  cases method v params with
  | ok result => exact .pure rfl
  | error problem =>
    cases problem with
    | failed message => exact .fail ⟨rfl,nofun⟩
    | unwritable cause => exact .fail ⟨rfl,nofun⟩

mutual

theorem Arg.eval_agree (h : Env.Agree f refs env env') : ∀ arg : Arg, arg.references ⊆ refs →
    Matches (Moved f refs) Eq (arg.eval env) ((arg.relocate f).eval env')
  | .mk operand calls, hsub => by
    obtain ⟨hoperand,hcalls⟩ := List.append_subset.mp hsub
    refine (Operand.eval_agree h operand hoperand).bind ?_
    rintro v _ rfl
    exact evalCalls_agree h calls hcalls v

theorem Operand.eval_agree (h : Env.Agree f refs env env') : ∀ operand : Operand,
    operand.references ⊆ refs →
    Matches (Moved f refs) Eq (operand.eval env) ((operand.relocate f).eval env')
  | .literal t, _ => .pure rfl
  | .variable root steps, hsub => by
    obtain ⟨hroot,hsteps⟩ := List.cons_subset.mp hsub
    simp only [Operand.relocate,Operand.eval]
    rw [h.roots hroot]
    cases env.scopes.roots root with
    | nil => exact .pure rfl
    | cons place roots => exact evalSteps_agree h steps hsteps ⟨[],place,roots⟩

theorem evalSteps_agree (h : Env.Agree f refs env env') : ∀ steps : List Step,
    stepsReferences steps ⊆ refs → ∀ walk : Walk,
    Matches (Moved f refs) Eq (evalSteps env steps walk)
      (evalSteps env' (stepsRelocate f steps) walk)
  | [], _, _ => .pure rfl
  | step :: steps, hsub, walk => by
    obtain ⟨hstep,hsteps⟩ := List.append_subset.mp hsub
    refine (Step.key_agree h step hstep).bind ?_
    rintro key _ rfl
    cases walk.take key with
    | found walk => exact evalSteps_agree h steps hsteps walk
    | nowhere => exact .pure rfl
    | unreadable => exact .fail ⟨rfl,nofun⟩

theorem Step.key_agree (h : Env.Agree f refs env env') : ∀ step : Step, step.references ⊆ refs →
    Matches (Moved f refs) Eq (step.key env) ((step.relocate f).key env')
  | .field name, _ => .pure rfl
  | .index arg, hsub => by
    refine (Arg.eval_agree h arg hsub).bind ?_
    rintro v _ rfl
    exact matches_ofWriting v.display

theorem evalCalls_agree (h : Env.Agree f refs env env') : ∀ calls : List Call,
    callsReferences calls ⊆ refs → ∀ v : Value,
    Matches (Moved f refs) Eq (evalCalls env calls v) (evalCalls env' (callsRelocate f calls) v)
  | [], _, _ => .pure rfl
  | call :: calls, hsub, v => by
    obtain ⟨hcall,hcalls⟩ := List.append_subset.mp hsub
    refine (Call.eval_agree h call hcall v).bind ?_
    rintro v _ rfl
    exact evalCalls_agree h calls hcalls v

theorem Call.eval_agree (h : Env.Agree f refs env env') : ∀ call : Call, call.references ⊆ refs →
    ∀ v : Value, Matches (Moved f refs) Eq (call.eval env v) ((call.relocate f).eval env' v)
  | .mk function params offset, hsub, v => by
    obtain ⟨hmethod,hparams⟩ := List.cons_subset.mp hsub
    refine (h.method hmethod).bind ?_
    rintro method _ rfl
    refine (evalParams_agree h params hparams).bind ?_
    rintro given _ rfl
    exact Env.matches_invoke function method v (.ofList given)

theorem evalParams_agree (h : Env.Agree f refs env env') : ∀ params : List Param,
    paramsReferences params ⊆ refs →
    Matches (Moved f refs) Eq (evalParams env params) (evalParams env' (paramsRelocate f params))
  | [], _ => .pure rfl
  | param :: params, hsub => by
    obtain ⟨hparam,hparams⟩ := List.append_subset.mp hsub
    refine (Param.eval_agree h param hparam).bind ?_
    rintro entry _ rfl
    refine (evalParams_agree h params hparams).bind ?_
    rintro entries _ rfl
    exact .pure rfl

theorem Param.eval_agree (h : Env.Agree f refs env env') : ∀ param : Param,
    param.references ⊆ refs →
    Matches (Moved f refs) Eq (param.eval env) ((param.relocate f).eval env')
  | .mk key none, _ => .pure rfl
  | .mk key (some value), hsub => by
    refine (Arg.eval_agree h value hsub).bind ?_
    rintro v _ rfl
    refine (matches_ofWriting v.display).bind ?_
    rintro t _ rfl
    exact .pure rfl

end

theorem evalArgs_agree (h : Env.Agree f refs env env') (args : List Arg)
    (hsub : args.flatMap Arg.references ⊆ refs) :
    Matches (Moved f refs) Eq (evalArgs env args) (evalArgs env' (args.map (Arg.relocate f))) := by
  induction args with
  | nil => exact .pure rfl
  | cons arg args ih =>
    rw [List.flatMap_cons] at hsub
    obtain ⟨harg,hargs⟩ := List.append_subset.mp hsub
    refine (Arg.eval_agree h arg harg).bind ?_
    rintro v _ rfl
    refine (ih hargs).bind ?_
    rintro vs _ rfl
    exact .pure rfl

theorem Arg.evalText_agree (h : Env.Agree f refs env env') (arg : Arg) (hsub : arg.references ⊆ refs) :
    Matches (Moved f refs) Eq (arg.evalText env) ((arg.relocate f).evalText env') := by
  refine (Arg.eval_agree h arg hsub).bind ?_
  rintro v _ rfl
  exact matches_ofWriting v.display

theorem Comparison.eval_agree (h : Env.Agree f refs env env') (comparison : Comparison)
    {left right : Arg} (hleft : left.references ⊆ refs) (hright : right.references ⊆ refs) :
    Matches (Moved f refs) Eq (comparison.eval env left right)
      (comparison.eval env' (left.relocate f) (right.relocate f)) := by
  cases comparison with
  | eq =>
    refine (Arg.eval_agree h left hleft).bind ?_
    rintro a _ rfl
    refine (Arg.eval_agree h right hright).bind ?_
    rintro b _ rfl
    exact .pure rfl
  | like =>
    refine (Arg.evalText_agree h left hleft).bind ?_
    rintro t _ rfl
    refine (Arg.evalText_agree h right hright).bind ?_
    rintro pattern _ rfl
    exact .pure rfl

theorem Condition.eval_agree (h : Env.Agree f refs env env') (c : Condition)
    (hsub : c.references ⊆ refs) :
    Matches (Moved f refs) Eq (c.eval env) ((c.relocate f).eval env') := by
  induction c with
  | holds arg =>
    refine (Arg.eval_agree h arg hsub).bind ?_
    rintro v _ rfl
    exact matches_ofWriting v.isTruthy
  | brackets inner ih => exact ih hsub
  | join connective left right ihl ihr =>
    obtain ⟨hleft,hright⟩ := List.append_subset.mp hsub
    refine (ihl hleft).bind ?_
    rintro a _ rfl
    refine (ihr hright).bind ?_
    rintro b _ rfl
    exact .pure rfl
  | compare comparison negated left right =>
    obtain ⟨hleft,hright⟩ := List.append_subset.mp hsub
    refine (comparison.eval_agree h hleft hright).bind ?_
    rintro holds _ rfl
    exact .pure rfl
  | among negated arg items =>
    obtain ⟨harg,hitems⟩ := List.append_subset.mp hsub
    refine (Arg.eval_agree h arg harg).bind ?_
    rintro v _ rfl
    refine (evalArgs_agree h items hitems).bind ?_
    rintro vs _ rfl
    exact .pure rfl

end

theorem Run.Matches.eq_relocate {f : Nat → Nat} {refs : List Reference} {r r' : Run α}
    (h : Matches (EvalProblem.Moved f refs) Eq r r') : r' = r.relocate f := by
  cases h with
  | ended h events =>
    cases h
    rfl
  | stopped h events =>
    cases h.problem
    rfl

theorem Env.agree_relocate (f : Nat → Nat) (refs : List Reference) (env : Env) :
    Env.Agree f refs (env.relocate f) env where
  roots _ _ := rfl
  methods _ _ _ := rfl

theorem Condition.eval_relocate (f : Nat → Nat) (env : Env) (c : Condition) :
    (c.relocate f).eval env = (c.eval (env.relocate f)).relocate f :=
  (c.eval_agree (env.agree_relocate f c.references) (List.Subset.refl _)).eq_relocate

end Stencil

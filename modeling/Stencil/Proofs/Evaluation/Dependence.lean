import Stencil.Proofs.Evaluation.Agreement
import Stencil.Proofs.Evaluation.Scoping
import Stencil.Template.Basic

/-! # What an evaluation depends on

Blocks are evaluated side by side in scopes that need not have as many frames, but show the same
values under the roots that the blocks mention. Both evaluations lead to scopes of this kind
again, with the same fragments, or stop for the same reason.
-/
namespace Stencil

theorem Mapping.get?_insert (name root : Text) (v : Value) (m : Mapping) :
    get? root (insert (.text name) v m) = if name = root then some v else get? root m := by
  have hname : (Value.text name).isText root = true ↔ name = root := beq_iff_eq
  induction m with
  | nil => simp only [insert,get?,hname]
  | cons entry m ih =>
    obtain ⟨k,w⟩ := entry
    rw [insert_cons]
    by_cases hk : k.isText name = true
    · cases k with
      | text t =>
        obtain rfl : t = name := eq_of_beq hk
        simp only [hk,if_true,get?,hname]
        by_cases h : t = root
        · rw [if_pos h,if_pos h]
        · rw [if_neg h,if_neg h,if_neg h]
      | _ => cases hk
    · rw [if_neg hk,get?,ih,get?]
      by_cases hroot : k.isText root = true
      · have h : name ≠ root := by
          rintro rfl
          exact hk hroot
        rw [if_pos hroot,if_pos hroot,if_neg h]
      · rw [if_neg hroot,if_neg hroot]

namespace Scopes

/-- Under every mentioned root the innermost frames hold the same value, and so do the frames
further out that hold one, in their order. -/
structure Alike (refs : List Reference) (s s' : Scopes) : Prop where
  inner : ∀ ⦃root⦄, .variable root ∈ refs → Mapping.get? root s'.inner = Mapping.get? root s.inner
  outer : ∀ ⦃root⦄, .variable root ∈ refs →
    s'.outer.filterMap (Mapping.get? root) = s.outer.filterMap (Mapping.get? root)

namespace Alike
variable {refs : List Reference} {s s' : Scopes}

theorem roots_eq (h : Alike refs s s') {root : Text} (hroot : .variable root ∈ refs) :
    s'.roots root = s.roots root := by
  unfold roots frames
  rw [List.filterMap_cons,List.filterMap_cons,h.inner hroot,h.outer hroot]

theorem push (h : Alike refs s s') (frame : Frame) : Alike refs (s.push frame) (s'.push frame) where
  inner _ _ := rfl
  outer _ hroot := h.roots_eq hroot

theorem set (h : Alike refs s s') (name : Text) (v : Value) :
    Alike refs (s.set name v) (s'.set name v) where
  inner root hroot := by
    unfold Scopes.set
    rw [Mapping.get?_insert,Mapping.get?_insert,h.inner hroot]
  outer := h.outer

/-- An empty frame below the innermost one shows nothing. -/
theorem empty (refs : List Reference) (s : Scopes) : Alike refs s ⟨s.inner,[] :: s.outer⟩ where
  inner _ _ := rfl
  outer _ _ := rfl

end Alike
end Scopes

/-- The mentioned calls find the same methods, in the second registry at the offsets that `f`
gives. -/
def Registry.Agree (f : Nat → Nat) (refs : List Reference) (methods methods' : Registry) : Prop :=
  ∀ ⦃name offset⦄, .method name offset ∈ refs → methods' name (f offset) = methods name offset

theorem Scopes.Alike.agree {f : Nat → Nat} {refs : List Reference} {s s' : Scopes}
    {methods methods' : Registry} (h : Alike refs s s')
    (hm : Registry.Agree f refs methods methods') : Env.Agree f refs ⟨s,methods⟩ ⟨s',methods'⟩ where
  roots _ hroot := h.roots_eq hroot
  methods := hm

namespace Rendering
open Run EvalProblem

/-- From scopes that are alike both come to scopes that are alike, with the same fragments, or
both stop. -/
def Alike (f : Nat → Nat) (refs : List Reference) (r r' : Rendering) : Prop :=
  ∀ ⦃s s'⦄, Scopes.Alike refs s s' →
    Matches (Moved f refs) (fun x x' => Scopes.Alike refs x.1 x'.1 ∧ x'.2 = x.2) (r s) (r' s')

variable {f : Nat → Nat} {refs : List Reference} {first first' second second' body body' : Rendering}

theorem alike_pure (fragments : List Fragment) :
    Alike f refs (fun s => pure (s,fragments)) fun s => pure (s,fragments) := by
  intro s s' hs
  exact .pure ⟨hs,rfl⟩

theorem alike_bind {r r' : Scopes → Run α} {g g' : α → Rendering}
    (h : ∀ ⦃s s'⦄, Scopes.Alike refs s s' → Matches (Moved f refs) Eq (r s) (r' s'))
    (hg : ∀ a, Alike f refs (g a) (g' a)) :
    Alike f refs (fun s => r s >>= fun a => g a s) fun s => r' s >>= fun a => g' a s := by
  intro s s' hs
  refine (h hs).bind ?_
  rintro a _ rfl
  exact hg a hs

theorem Alike.andThen (h : Alike f refs first first') (h' : Alike f refs second second') :
    Alike f refs (andThen first second) (andThen first' second') := by
  intro s s' hs
  refine (h hs).bind ?_
  rintro ⟨t,before⟩ ⟨t',_⟩ ⟨ht,rfl⟩
  refine (h' ht).bind ?_
  rintro ⟨u,after⟩ ⟨u',_⟩ ⟨hu,rfl⟩
  exact .pure ⟨hu,rfl⟩

section Bodies
variable {names names' : List Text} (h : Alike f refs body body') (hk : Keeps names body)
  (hk' : Keeps names' body')
include h hk hk'

/-- A body leaves the scopes that it found, so that they are alike again after it. -/
theorem Alike.within (frame : Frame) : Alike f refs (within frame body) (within frame body') := by
  intro s s' hs
  refine (h (hs.push frame)).bind_of_result ?_
  rintro ⟨t,fragments⟩ ⟨t',_⟩ ht ht' ⟨_,rfl⟩
  refine .pure ⟨?_,rfl⟩
  rw [Scopes.pop_of_sameBut (hk ht),Scopes.pop_of_sameBut (hk' ht')]
  exact hs

theorem Alike.forEach (name : Text) (vs : List Value) :
    Alike f refs (forEach name body vs) (forEach name body' vs) := by
  induction vs with
  | nil => exact alike_pure []
  | cons v vs ih => exact (h.within hk hk' _).andThen ih

theorem Alike.forRange (name : Text) (last : Number) (rounds : Nat) (current : Number) :
    Alike f refs (forRange name body last rounds current)
      (forRange name body' last rounds current) := by
  induction rounds generalizing current with
  | zero => exact alike_pure []
  | succ rounds ih =>
    unfold Rendering.forRange
    by_cases hlast : current.below last = true
    · rw [if_pos hlast,if_pos hlast]
      exact (h.within hk hk' _).andThen (ih current.succ)
    · rw [if_neg hlast,if_neg hlast]
      exact alike_pure []

theorem Alike.loop {methods methods' : Registry} (hm : Registry.Agree f refs methods methods')
    (name : Text) (source : LoopSource) (hsub : source.references ⊆ refs) :
    Alike f refs (source.run methods name body) ((source.relocate f).run methods' name body') := by
  cases source with
  | items args =>
    refine alike_bind ?_ fun vs => h.forEach hk hk' name vs
    intro s s' hs
    exact evalArgs_agree (hs.agree hm) args hsub
  | range first last =>
    obtain ⟨hfirst,hlast⟩ := List.append_subset.mp hsub
    refine alike_bind (fun s s' hs => first.evalText_agree (hs.agree hm) hfirst) fun a => ?_
    refine alike_bind (fun s s' hs => last.evalText_agree (hs.agree hm) hlast) fun b => ?_
    have hskip : Alike f refs (fun s => Run.warn (rangeWarning name) >>= fun _ => pure (s,[]))
        fun s => Run.warn (rangeWarning name) >>= fun _ => pure (s,[]) :=
      alike_bind (fun _ _ _ => .ended rfl _) fun _ => alike_pure []
    cases Number.ofText? a with
    | none => exact hskip
    | some p =>
      cases Number.ofText? b with
      | none => exact hskip
      | some q => exact h.forRange hk hk' name q _ p

end Bodies
end Rendering

section Blocks
open Rendering Run EvalProblem
variable {f : Nat → Nat} {refs : List Reference} {methods methods' : Registry}

mutual

theorem Block.eval_alike (hm : Registry.Agree f refs methods methods') : ∀ block : Block,
    block.references ⊆ refs → Alike f refs (block.eval methods) ((block.relocate f).eval methods')
  | .text t, _ => alike_pure [.string t]
  | .branch condition body, hsub => by
    obtain ⟨hcondition,hbody⟩ := List.append_subset.mp hsub
    refine alike_bind (fun s s' hs => condition.eval_agree (hs.agree hm) hcondition) fun holds => ?_
    cases holds
    · exact alike_pure []
    · exact (evalBlocks_alike hm body hbody).within (keeps_evalBlocks _ _ (List.Subset.refl _))
        (keeps_evalBlocks _ _ (List.Subset.refl _)) []
  | .loop name source body, hsub => by
    obtain ⟨hsource,hbody⟩ := List.append_subset.mp hsub
    exact (evalBlocks_alike hm body hbody).loop (keeps_evalBlocks _ _ (List.Subset.refl _))
      (keeps_evalBlocks _ _ (List.Subset.refl _)) hm name source hsource
  | .set name arg, hsub => by
    refine alike_bind (fun s s' hs => arg.eval_agree (hs.agree hm) hsub) fun v => ?_
    intro s s' hs
    exact .pure ⟨hs.set name v,rfl⟩
  | .conf key arg, hsub =>
    alike_bind (fun s s' hs => arg.evalText_agree (hs.agree hm) hsub) fun t =>
      alike_pure [.conf key t]
  | .print arg, hsub =>
    alike_bind (fun s s' hs => arg.evalText_agree (hs.agree hm) hsub) fun t =>
      alike_pure [.value t]
  | .trim direction, _ => alike_pure [.trim direction]
  | .newline, _ => alike_pure [.value ['\n']]
  | .foreign kind, _ => fun _ _ _ => .fail ⟨rfl,nofun⟩

theorem evalBlocks_alike (hm : Registry.Agree f refs methods methods') : ∀ blocks : List Block,
    blocksReferences blocks ⊆ refs →
    Alike f refs (evalBlocks methods blocks) (evalBlocks methods' (blocksRelocate f blocks))
  | [], _ => alike_pure []
  | block :: blocks, hsub => by
    obtain ⟨hblock,hblocks⟩ := List.append_subset.mp hsub
    exact (Block.eval_alike hm block hblock).andThen (evalBlocks_alike hm blocks hblocks)

end

end Blocks

/-- Both mappings hold the same value, or none, under every mentioned root, and both registries
have the same method, or none, for every mentioned call. -/
structure SameFor (refs : List Reference) (vars vars' : Mapping) (methods methods' : Registry) : Prop where
  roots : ∀ root, .variable root ∈ refs → Mapping.get? root vars' = Mapping.get? root vars
  methods : ∀ name offset, .method name offset ∈ refs → methods' name offset = methods name offset

namespace SameFor
variable {refs : List Reference} {vars vars' : Mapping} {methods methods' : Registry}

theorem refl (refs : List Reference) (vars : Mapping) (methods : Registry) :
    SameFor refs vars vars methods methods :=
  ⟨fun _ _ => rfl,fun _ _ _ => rfl⟩

theorem agree (h : SameFor refs vars vars' methods methods') : Registry.Agree id refs methods methods' :=
  h.methods

theorem start (h : SameFor refs vars vars' methods methods') :
    Scopes.Alike refs (.start vars) (.start vars') where
  inner _ _ := rfl
  outer root hroot := by
    unfold Scopes.start
    rw [List.filterMap_cons,List.filterMap_cons,h.roots root hroot]

end SameFor

theorem EvalProblem.Moved.eq_of_id {refs : List Reference} {p q : EvalProblem} (h : Moved id refs p q) :
    q = p := by
  rw [h.problem]
  cases p <;> rfl

section Outcomes
open Run EvalProblem
variable {f : Nat → Nat} {refs : List Reference}

/-- Blocks that leave the same fragments have the same output and events, and blocks that stop
have the same events and the same problem at another offset. -/
theorem Template.renderBlocks_of_matches {methods methods' : Registry} (options options' : Options)
    (source source' : Option Text) {vars vars' : Mapping} {xs ys : List Block}
    {R : Scopes → Scopes → Prop}
    (h : Matches (Moved f refs) (fun x x' => R x.1 x'.1 ∧ x'.2 = x.2)
      (evalBlocks methods xs (.start vars)) (evalBlocks methods' ys (.start vars')))
    (ho : ∀ fragments, Fragment.output options' fragments = Fragment.output options fragments) :
    (Template.renderBlocks methods' options' source' vars' ys).events =
      (Template.renderBlocks methods options source vars xs).events ∧
    ((∃ output, (Template.renderBlocks methods options source vars xs).result = .ok output ∧
        (Template.renderBlocks methods' options' source' vars' ys).result = .ok output) ∨
      ∃ p q, Moved f refs p q ∧
        (Template.renderBlocks methods options source vars xs).result = .error (.ofEval source p) ∧
        (Template.renderBlocks methods' options' source' vars' ys).result =
          .error (.ofEval source' q)) := by
  unfold Template.renderBlocks
  generalize evalBlocks methods xs (.start vars) = run at h
  generalize evalBlocks methods' ys (.start vars') = run' at h
  cases h with
  | @ended x x' hx events =>
    obtain ⟨t,fragments⟩ := x
    obtain ⟨t',fragments'⟩ := x'
    obtain rfl : fragments' = fragments := hx.2
    refine ⟨rfl,Or.inl ⟨_,rfl,?_⟩⟩
    exact congrArg Except.ok (ho fragments')
  | @stopped p q hpq events => exact ⟨rfl,Or.inr ⟨p,q,hpq,rfl,rfl⟩⟩

theorem Template.checkCondition_of_matches {methods methods' : Registry}
    (source source' : Option Text) {vars vars' : Mapping} {x y : Condition}
    (h : Matches (Moved f refs) Eq (x.eval ⟨.start vars,methods⟩) (y.eval ⟨.start vars',methods'⟩)) :
    (Template.checkCondition methods' source' vars' y).events =
      (Template.checkCondition methods source vars x).events ∧
    ((∃ holds, (Template.checkCondition methods source vars x).result = .ok holds ∧
        (Template.checkCondition methods' source' vars' y).result = .ok holds) ∨
      ∃ p q, Moved f refs p q ∧
        (Template.checkCondition methods source vars x).result = .error (.ofEval source p) ∧
        (Template.checkCondition methods' source' vars' y).result = .error (.ofEval source' q)) := by
  unfold Template.checkCondition
  generalize x.eval ⟨.start vars,methods⟩ = run at h
  generalize y.eval ⟨.start vars',methods'⟩ = run' at h
  cases h with
  | @ended a _ hab events =>
    cases hab
    exact ⟨rfl,Or.inl ⟨a,rfl,rfl⟩⟩
  | @stopped p q hpq events => exact ⟨rfl,Or.inr ⟨p,q,hpq,rfl,rfl⟩⟩

end Outcomes

theorem Outcome.ext {o o' : Outcome α} (hr : o.result = o'.result) (he : o.events = o'.events) :
    o = o' := by
  cases o
  cases o'
  cases hr
  cases he
  rfl

/-- Rendering and checking look at nothing but what the tree mentions: with the same values under
its roots and the same methods for its calls they have the same outcome, failures and events
included. -/
theorem outcome_eq_of_sameFor (options : Options) (source : Option Text) (vars vars' : Mapping)
    (methods methods' : Registry) :
    (∀ blocks, SameFor (blocksReferences blocks) vars vars' methods methods' →
      Template.renderBlocks methods' options source vars' blocks =
        Template.renderBlocks methods options source vars blocks) ∧
    ∀ condition : Condition, SameFor condition.references vars vars' methods methods' →
      Template.checkCondition methods' source vars' condition =
        Template.checkCondition methods source vars condition := by
  constructor
  · intro blocks h
    have hrun := evalBlocks_alike h.agree blocks (List.Subset.refl _) h.start
    rw [blocksRelocate_id] at hrun
    obtain ⟨hevents,⟨output,hr,hr'⟩ | ⟨p,q,hpq,hr,hr'⟩⟩ :=
      Template.renderBlocks_of_matches options options source source hrun fun _ => rfl
    · exact Outcome.ext (hr'.trans hr.symm) hevents
    · rw [hpq.eq_of_id] at hr'
      exact Outcome.ext (hr'.trans hr.symm) hevents
  · intro condition h
    have hrun := condition.eval_agree (h.start.agree h.agree) (List.Subset.refl _)
    rw [Condition.relocate_id] at hrun
    obtain ⟨hevents,⟨holds,hr,hr'⟩ | ⟨p,q,hpq,hr,hr'⟩⟩ :=
      Template.checkCondition_of_matches source source hrun
    · exact Outcome.ext (hr'.trans hr.symm) hevents
    · rw [hpq.eq_of_id] at hr'
      exact Outcome.ext (hr'.trans hr.symm) hevents

theorem outcome_eq_of_sameFor_of_unused :
    Template.renderBlocks (fun _ _ => some fun v _ => .ok v) {} none
        [(.text ['y'],.text ['2']),(.text ['x'],.text ['1'])]
        [.loop ['i'] (.items [.mk (.variable ['x'] []) [.mk ['f'] [] 3]])
          [.print (.mk (.variable ['i'] []) [])]] =
      Template.renderBlocks (fun name _ => if name = ['f'] then some fun v _ => .ok v else none) {}
        none [(.text ['x'],.text ['1'])]
        [.loop ['i'] (.items [.mk (.variable ['x'] []) [.mk ['f'] [] 3]])
          [.print (.mk (.variable ['i'] []) [])]] ∧
    Template.checkCondition (fun _ _ => some fun v _ => .ok v) none
        [(.text ['y'],.text ['2']),(.text ['x'],.text ['1'])] (.holds (.mk (.variable ['x'] []) [])) =
      Template.checkCondition (fun name _ => if name = ['f'] then some fun v _ => .ok v else none) none
        [(.text ['x'],.text ['1'])] (.holds (.mk (.variable ['x'] []) [])) := by
  obtain ⟨hrender,hcheck⟩ := outcome_eq_of_sameFor {} none [(.text ['x'],.text ['1'])]
    [(.text ['y'],.text ['2']),(.text ['x'],.text ['1'])]
    (fun name _ => if name = ['f'] then some fun v _ => .ok v else none)
    (fun _ _ => some fun v _ => .ok v)
  constructor
  · apply hrender
    constructor
    · intro root h
      change _ ∈ [Reference.variable ['x'],.method ['f'] 3,.variable ['i']] at h
      obtain rfl | rfl : root = ['x'] ∨ root = ['i'] := by simpa using h
      · rfl
      · rfl
    · intro name offset h
      change _ ∈ [Reference.variable ['x'],.method ['f'] 3,.variable ['i']] at h
      have hname : name = ['f'] ∧ offset = 3 := by simpa using h
      rw [if_pos hname.1]
  · apply hcheck
    constructor
    · intro root h
      obtain rfl : root = ['x'] := by
        injection List.mem_singleton.mp h
      rfl
    · intro name offset h
      cases List.mem_singleton.mp h

end Stencil

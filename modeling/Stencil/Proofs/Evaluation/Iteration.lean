import Mathlib.Data.List.Forall2
import Stencil.Proofs.Evaluation.Scoping

/-! # The rounds of a loop

Every round of a loop starts from the scopes of the loop itself, with the loop's name in a
frame of its own. So a loop over a list gives what the loops over its parts give one after the
other, down to the loops over its single items.
-/
namespace Stencil

theorem evalArgs_append (env : Env) (xs ys : List Arg) : evalArgs env (xs ++ ys) =
    evalArgs env xs >>= fun vs => evalArgs env ys >>= fun ws => pure (vs ++ ws) := by
  induction xs with
  | nil => simp [evalArgs]
  | cons x xs ih => simp [evalArgs,ih]

theorem evalArgs_append_ok {env : Env} {xs ys : List Arg} {us : List Value} :
    (evalArgs env (xs ++ ys)).result = .ok us ↔ ∃ vs ws, (evalArgs env xs).result = .ok vs ∧
      (evalArgs env ys).result = .ok ws ∧ us = vs ++ ws := by
  rw [evalArgs_append,Run.result_bind_eq_ok]
  refine exists_congr fun vs => ?_
  rw [Run.result_bind_eq_ok]
  constructor
  · rintro ⟨hvs,ws,hws,⟨⟩⟩
    exact ⟨ws,hvs,hws,rfl⟩
  · rintro ⟨ws,hvs,hws,rfl⟩
    exact ⟨hvs,ws,hws,rfl⟩

theorem evalArgs_singleton_ok {env : Env} {x : Arg} {vs : List Value} :
    (evalArgs env [x]).result = .ok vs ↔ ∃ v, (x.eval env).result = .ok v ∧ vs = [v] := by
  simp only [evalArgs,pure_bind,Run.result_bind_eq_ok]
  constructor
  · rintro ⟨v,hv,⟨⟩⟩
    exact ⟨v,hv,rfl⟩
  · rintro ⟨v,hv,rfl⟩
    exact ⟨v,hv,rfl⟩

namespace Rendering
open Scopes
variable {names : List Text} {first second body : Rendering} {s t : Scopes}
variable {fragments : List Fragment}

theorem andThen_ok : (andThen first second s).result = .ok (t,fragments) ↔
    ∃ u before after, (first s).result = .ok (u,before) ∧ (second u).result = .ok (t,after) ∧
      fragments = before ++ after := by
  unfold andThen
  rw [Run.result_bind_eq_ok]
  constructor
  · rintro ⟨⟨u,before⟩,hfirst,hsecond⟩
    obtain ⟨⟨v,after⟩,hv,⟨⟩⟩ := Run.result_bind_eq_ok.mp hsecond
    exact ⟨u,before,after,hfirst,hv,rfl⟩
  · rintro ⟨u,before,after,hfirst,hsecond,rfl⟩
    exact ⟨(u,before),hfirst,Run.result_bind_eq_ok.mpr ⟨(t,after),hsecond,rfl⟩⟩

/-- Behind a rendering that comes to an end, everything depends on the next one. -/
theorem result_andThen_of_ok {before : List Fragment} (h : (first s).result = .ok (t,before)) :
    (andThen first second s).result =
      (second t).result.map fun after => (after.1,before ++ after.2) := by
  unfold andThen
  rw [Run.bind_of_ok h,Run.result_bind_pure]

theorem result_andThen_of_error {problem : EvalProblem} (h : (first s).result = .error problem) :
    (andThen first second s).result = .error problem := by
  unfold andThen
  rw [Run.bind_of_error h]

theorem andThen_assoc (first second third : Rendering) :
    andThen (andThen first second) third = andThen first (andThen second third) := by
  funext s
  simp [andThen]

@[simp] theorem nothing_andThen (r : Rendering) : andThen nothing r = r := by
  funext s
  simp [andThen,nothing]

@[simp] theorem andThen_nothing (r : Rendering) : andThen r nothing = r := by
  funext s
  simp [andThen,nothing]

theorem forEach_append (name : Text) (body : Rendering) (vs ws : List Value) :
    forEach name body (vs ++ ws) = andThen (forEach name body vs) (forEach name body ws) := by
  induction vs with
  | nil => simp [forEach]
  | cons v vs ih => rw [List.cons_append,forEach,forEach,ih,andThen_assoc]

/-- Where both leave the scopes as they were, each of them starts from the same ones. -/
theorem andThen_ok_of_keeps (h : Keeps [] first) (h' : Keeps [] second) :
    (andThen first second s).result = .ok (t,fragments) ↔
      t = s ∧ ∃ before after, (first s).result = .ok (s,before) ∧
        (second s).result = .ok (s,after) ∧ fragments = before ++ after := by
  rw [andThen_ok]
  constructor
  · rintro ⟨u,before,after,hfirst,hsecond,hfragments⟩
    obtain rfl := (h hfirst).eq_of_nil
    obtain rfl := (h' hsecond).eq_of_nil
    exact ⟨rfl,before,after,hfirst,hsecond,hfragments⟩
  · rintro ⟨rfl,before,after,hfirst,hsecond,hfragments⟩
    exact ⟨t,before,after,hfirst,hsecond,hfragments⟩

theorem within_ok (h : Keeps names body) {frame : Frame} :
    (within frame body s).result = .ok (t,fragments) ↔
      t = s ∧ ∃ u, (body (s.push frame)).result = .ok (u,fragments) := by
  unfold within
  rw [Run.result_bind_eq_ok]
  constructor
  · rintro ⟨⟨u,inside⟩,hu,⟨⟩⟩
    exact ⟨pop_of_sameBut (h hu),u,hu⟩
  · rintro ⟨rfl,u,hu⟩
    refine ⟨(u,fragments),hu,?_⟩
    change Except.ok (u.pop,fragments) = Except.ok (t,fragments)
    rw [pop_of_sameBut (h hu)]

variable {methods : Registry} {name : Text} {x : Arg} {xs ys : List Arg}

theorem items_ok : ((LoopSource.items xs).run methods name body s).result = .ok (t,fragments) ↔
    ∃ vs, (evalArgs ⟨s,methods⟩ xs).result = .ok vs ∧
      (forEach name body vs s).result = .ok (t,fragments) :=
  Run.result_bind_eq_ok

/-- The values of the second part are the same before and after the rounds of the first. -/
theorem items_append_ok (h : Keeps names body) :
    ((LoopSource.items (xs ++ ys)).run methods name body s).result = .ok (t,fragments) ↔
      t = s ∧ ∃ before after,
        ((LoopSource.items xs).run methods name body s).result = .ok (s,before) ∧
        ((LoopSource.items ys).run methods name body s).result = .ok (s,after) ∧
        fragments = before ++ after := by
  constructor
  · intro hloop
    obtain ⟨us,hus,hrounds⟩ := items_ok.mp hloop
    obtain ⟨vs,ws,hvs,hws,rfl⟩ := evalArgs_append_ok.mp hus
    rw [forEach_append,andThen_ok_of_keeps (h.forEach name vs []) (h.forEach name ws [])] at hrounds
    obtain ⟨rfl,before,after,hbefore,hafter,hfragments⟩ := hrounds
    exact ⟨rfl,before,after,items_ok.mpr ⟨vs,hvs,hbefore⟩,items_ok.mpr ⟨ws,hws,hafter⟩,hfragments⟩
  · rintro ⟨rfl,before,after,hxs,hys,hfragments⟩
    obtain ⟨vs,hvs,hbefore⟩ := items_ok.mp hxs
    obtain ⟨ws,hws,hafter⟩ := items_ok.mp hys
    refine items_ok.mpr ⟨vs ++ ws,evalArgs_append_ok.mpr ⟨vs,ws,hvs,hws,rfl⟩,?_⟩
    rw [forEach_append,andThen_ok_of_keeps (h.forEach name vs []) (h.forEach name ws [])]
    exact ⟨rfl,before,after,hbefore,hafter,hfragments⟩

theorem items_singleton_ok (h : Keeps names body) :
    ((LoopSource.items [x]).run methods name body s).result = .ok (t,fragments) ↔
      t = s ∧ ∃ v u, (x.eval ⟨s,methods⟩).result = .ok v ∧
        (body (s.push [(.text name,v)])).result = .ok (u,fragments) := by
  rw [items_ok]
  constructor
  · rintro ⟨vs,hvs,hrounds⟩
    obtain ⟨v,hv,rfl⟩ := evalArgs_singleton_ok.mp hvs
    rw [forEach,forEach,andThen_nothing,within_ok h] at hrounds
    obtain ⟨rfl,u,hu⟩ := hrounds
    exact ⟨rfl,v,u,hv,hu⟩
  · rintro ⟨rfl,v,u,hv,hu⟩
    refine ⟨[v],evalArgs_singleton_ok.mpr ⟨v,hv,rfl⟩,?_⟩
    rw [forEach,forEach,andThen_nothing,within_ok h]
    exact ⟨rfl,u,hu⟩

theorem items_ok_iff_rounds (h : Keeps names body) :
    ((LoopSource.items xs).run methods name body s).result = .ok (t,fragments) ↔
      t = s ∧ ∃ parts, List.Forall₂ (fun x part =>
        ((LoopSource.items [x]).run methods name body s).result = .ok (s,part)) xs parts ∧
        fragments = parts.flatten := by
  induction xs generalizing t fragments with
  | nil =>
    constructor
    · rintro ⟨⟩
      exact ⟨rfl,[],.nil,rfl⟩
    · rintro ⟨rfl,parts,hparts,rfl⟩
      cases hparts
      rfl
  | cons x xs ih =>
    rw [← List.singleton_append,items_append_ok h]
    simp only [ih,true_and,List.singleton_append,List.forall₂_cons_left_iff]
    constructor
    · rintro ⟨rfl,part,_,hpart,⟨parts,hparts,rfl⟩,rfl⟩
      exact ⟨rfl,part :: parts,⟨part,parts,hpart,hparts,rfl⟩,rfl⟩
    · rintro ⟨rfl,_,⟨part,parts,hpart,hparts,rfl⟩,rfl⟩
      exact ⟨rfl,part,parts.flatten,hpart,⟨parts,hparts,rfl⟩,rfl⟩

end Rendering

theorem evalBlocks_cons (methods : Registry) (block : Block) (blocks : List Block) :
    evalBlocks methods (block :: blocks) =
      Rendering.andThen (block.eval methods) (evalBlocks methods blocks) := by
  funext s
  rw [evalBlocks]

theorem evalBlocks_pair (methods : Registry) (first second : Block) :
    evalBlocks methods [first,second] =
      Rendering.andThen (first.eval methods) (second.eval methods) := by
  rw [evalBlocks_cons,evalBlocks_cons]
  exact congrArg _ (Rendering.andThen_nothing _)

open Rendering in
/-- A loop over a list comes to an end just when the loops over its two parts do one after the
other, and with the same fragments and scopes. What it gives is what the loops over the single
items give. Each of those runs the body from the scopes before the loop, in a frame that holds
the value of the item and nothing else. -/
theorem loop_append (methods : Registry) (name : Text) (body : List Block) (xs ys : List Arg)
    (s : Scopes) :
    (∀ t fragments,
      ((Block.loop name (.items (xs ++ ys)) body).eval methods s).result = .ok (t,fragments) ↔
        (evalBlocks methods [.loop name (.items xs) body,.loop name (.items ys) body] s).result =
          .ok (t,fragments)) ∧
    (∀ t fragments, ((Block.loop name (.items xs) body).eval methods s).result = .ok (t,fragments) ↔
      t = s ∧ ∃ parts, List.Forall₂ (fun x part =>
        ((Block.loop name (.items [x]) body).eval methods s).result = .ok (s,part)) xs parts ∧
        fragments = parts.flatten) ∧
    ∀ x part, ((Block.loop name (.items [x]) body).eval methods s).result = .ok (s,part) ↔
      ∃ v u, (x.eval ⟨s,methods⟩).result = .ok v ∧
        (evalBlocks methods body (s.push [(.text name,v)])).result = .ok (u,part) := by
  have hbody : Keeps (setNames body) (evalBlocks methods body) :=
    keeps_evalBlocks methods body (List.Subset.refl _)
  refine ⟨fun t fragments => ?_,fun t fragments => items_ok_iff_rounds hbody,fun x part => ?_⟩
  · rw [evalBlocks_pair]
    refine (items_append_ok hbody).trans (andThen_ok_of_keeps ?_ ?_).symm
    · exact hbody.loop methods name (.items xs) []
    · exact hbody.loop methods name (.items ys) []
  · exact (items_singleton_ok hbody).trans (and_iff_right rfl)

end Stencil

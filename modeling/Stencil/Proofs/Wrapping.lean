import Mathlib
import Stencil.Proofs.Branch
import Stencil.Proofs.DepthLimit
import Stencil.Proofs.Evaluation.Dependence

/-! # Templates in a directive that always holds

A template is the same in the body of a directive whose condition is a plain true text: it is
read on one level more, with its calls ten characters further on, and evaluated above one more
frame, in which nothing is ever found.
-/
namespace Stencil
open Grammar
variable {ceiling : Nat}

/-- The template `t` in a directive on a true condition. -/
def wrapSource (t : Text) : Text :=
  openToken "if".toList ++ ' ' :: ("\"1\"".toList ++ (closeToken ++ (t ++ endToken "if".toList)))

/-- The blocks `xs` in the body of that directive. -/
def wrapBlocks (xs : List Block) : List Block := [.branch (.holds (.ofText ['1'])) xs]

theorem readCondition_one (levels : Nat) :
    readCondition (levels + 1) "\"1\"".toList = .ok (.holds (.ofText ['1'])) := by
  have hone : readCondition 1 "\"1\"".toList = .ok (.holds (.ofText ['1'])) := by cbv
  exact (cut_readCondition (Nat.le_add_left 1 levels) _).ok_again hone

theorem readBlocks_wrapSource {levels : Nat} {t : Text} {xs : List Block}
    (h : readBlocks levels t = .ok xs) :
    readBlocks (levels + 1) (wrapSource t) = .ok (wrapBlocks (xs.map (Block.relocate (· + 10)))) :=
  readBlocks_branch (readCondition_one levels) h

/-- The level that the directive takes is the one that is added, but at the built-in ceiling. -/
theorem levelsFor_succ {d : Nat} (h : ceilingCuts ceiling (d + 1 : Nat) = false) :
    levelsFor ceiling (d + 1 : Nat) = levelsFor ceiling d + 1 := by
  have hd : ¬((ceiling : Int) < (d + 1 : Nat)) := of_decide_eq_false h
  rw [levelsFor_natCast,levelsFor_natCast]
  omega

theorem read_wrapSource {d : Nat} {t : Text} {xs : List Block} (h : readBlocks (levelsFor ceiling d) t = .ok xs)
    (hw : ∀ refusal, (Template.read ceiling (d + 1 : Nat) (wrapSource t)).result = .error (.refused refusal) →
      refusal.isCeiling = false) :
    readBlocks (levelsFor ceiling (d + 1 : Nat)) (wrapSource t) =
      .ok (wrapBlocks (xs.map (Block.relocate (· + 10)))) := by
  have hdeep := readBlocks_wrapSource h
  have hle : levelsFor ceiling (d + 1 : Nat) ≤ levelsFor ceiling d + 1 := by
    rw [levelsFor_natCast,levelsFor_natCast]
    omega
  refine (cut_readBlocks hle (wrapSource t)).ok_of_not_tooDeep hdeep fun fault hf htoo => ?_
  have hresult := Template.read_result ceiling (d + 1 : Nat) (wrapSource t)
  rw [hf] at hresult
  have hceiling := hw _ hresult
  rw [Refusal.isCeiling,Refusal.isTooDeep_iff.mpr htoo,Bool.true_and] at hceiling
  -- below the ceiling the directive has its level
  rw [levelsFor_succ hceiling,hdeep] at hf
  cases hf

theorem evalBlocks_wrapBlocks (methods : Registry) (ys : List Block) (s : Scopes) :
    evalBlocks methods (wrapBlocks ys) s =
      ⟨(evalBlocks methods ys (s.push [])).result.map fun x => (x.1.pop,x.2),
        (evalBlocks methods ys (s.push [])).events⟩ := by
  have hcondition : (Condition.holds (.ofText ['1'])).eval ⟨s,methods⟩ = pure true := rfl
  simp only [wrapBlocks,evalBlocks,Rendering.andThen,Block.eval,hcondition,Rendering.within]
  rcases evalBlocks methods ys (s.push []) with ⟨_ | ⟨t,fragments⟩,events⟩
  · rfl
  · simp [bind,pure,Run.pure,Except.map]

/-- The frame of the body is empty when its evaluation begins, and hides nothing. -/
theorem matches_wrapBlocks (methods : Text → Option Method) (vars : Mapping) (xs : List Block) :
    Run.Matches (EvalProblem.Moved (· + 10) (blocksReferences xs)) (fun x x' => True ∧ x'.2 = x.2)
      (evalBlocks (.byName methods) xs (.start vars))
      (evalBlocks (.byName methods) (wrapBlocks (xs.map (Block.relocate (· + 10)))) (.start vars)) := by
  have hm : Registry.Agree (· + 10) (blocksReferences xs) (.byName methods) (.byName methods) :=
    fun _ _ _ => rfl
  have hrun := evalBlocks_alike hm xs (List.Subset.refl _) (Scopes.Alike.empty _ (.start vars))
  rw [blocksRelocate_eq_map] at hrun
  rw [evalBlocks_wrapBlocks]
  exact hrun.map_right fun x x' hx => ⟨trivial,hx.2⟩

theorem render_of_read (methods : Registry) (options : Options) (vars : Mapping) {source : Text}
    {xs : List Block} (h : readBlocks (levelsFor ceiling options.maxDepth) source = .ok xs) :
    (Template.render ceiling methods options vars source).result =
        (Template.renderBlocks methods options (some source) vars xs).result ∧
      (Template.render ceiling methods options vars source).warnings =
        (Template.renderBlocks methods options (some source) vars xs).warnings ∧
      (Template.render ceiling methods options vars source).calls =
        (Template.renderBlocks methods options (some source) vars xs).calls := by
  unfold Template.render Template.read
  rw [h]
  exact ⟨rfl,rfl,rfl⟩

/-- A template in a directive that always holds is rendered under one level more as the template
itself: to the same output, or stopped for the same unknown function, whose call stands ten
characters further on, or with the same message of a method, and in each case with the same
warnings and calls. Set aside are limits so large that the built-in ceiling refuses the directive. -/
theorem render_wrapSource (methods : Text → Option Method) (options : Options) (vars : Mapping)
    (t : Text) {xs : List Block} (ht : (Template.read ceiling options.maxDepth t).result = .ok xs)
    (hw : ∀ refusal, (Template.read ceiling (options.maxDepth + 1 : Nat) (wrapSource t)).result =
      .error (.refused refusal) → refusal.isCeiling = false) :
    let inner := Template.render ceiling (.byName methods) options vars t
    let outer := Template.render ceiling (.byName methods)
      { options with maxDepth := options.maxDepth + 1 } vars (wrapSource t)
    ((∃ output, inner.result = .ok output ∧ outer.result = .ok output) ∨
      (∃ stop stop', inner.result = .error (.stopped stop) ∧ outer.result = .error (.stopped stop') ∧
        stop'.problem = stop.problem.relocate (· + 10)) ∨
      ∃ breakdown, inner.result = .error (.broken breakdown) ∧
        outer.result = .error (.broken breakdown)) ∧
    outer.warnings = inner.warnings ∧ outer.calls = inner.calls := by
  intro inner outer
  rw [Template.read_result,mapError_eq_ok] at ht
  obtain ⟨hr,hwarnings,hcalls⟩ := render_of_read (.byName methods) options vars ht
  obtain ⟨hr',hwarnings',hcalls'⟩ := render_of_read (.byName methods)
    { options with maxDepth := options.maxDepth + 1 } vars (read_wrapSource ht hw)
  obtain ⟨hevents,hresult⟩ := Template.renderBlocks_of_matches options
    { options with maxDepth := options.maxDepth + 1 } (some t) (some (wrapSource t))
    (R := fun _ _ => True) (matches_wrapBlocks methods vars xs) fun _ => rfl
  refine ⟨?_,?_,?_⟩
  · rcases hresult with ⟨output,hi,ho⟩ | ⟨p,q,hpq,hi,ho⟩
    · exact Or.inl ⟨output,hr.trans hi,hr'.trans ho⟩
    · obtain rfl := hpq.problem
      cases p with
      | longIndex | unwritable => exact Or.inr (Or.inr ⟨_,hr.trans hi,hr'.trans ho⟩)
      | _ => exact Or.inr (Or.inl ⟨_,_,hr.trans hi,hr'.trans ho,rfl⟩)
  · rw [hwarnings',hwarnings,Outcome.warnings,Outcome.warnings,hevents]
  · rw [hcalls',hcalls,Outcome.calls,Outcome.calls,hevents]

theorem render_wrapSource_of_calls :
    (Template.render 1000 (.byName fun name => if name = ['f'] then some fun v _ => .ok v else none)
      { maxDepth := 2 } [(.text ['x'],.text ['7'])]
      (wrapSource "a\x7b\x7bset y = x\x7d\x7d\x7b\x7b:y -> f()\x7d\x7d".toList)).result = .ok "a7".toList ∧
    ∃ stop, (Template.render 1000 (.byName fun _ => none) { maxDepth := 2 } []
        (wrapSource "\x7b\x7b:x -> g()\x7d\x7d".toList)).result = .error (.stopped stop) ∧
      stop.problem = .unknownFunction ['g'] 18 := by
  have hnot : ∀ source refusal, (Template.read 1000 (2 : Nat) source).result = .error (.refused refusal) →
      refusal.isCeiling = false := by
    intro source refusal h
    rw [Template.read_result] at h
    obtain ⟨fault,_,he⟩ := mapError_eq_error.mp h
    obtain rfl := Failure.refused.inj he
    exact Bool.and_false _
  constructor
  · have hread : (Template.read 1000 (1 : Nat)
        "a\x7b\x7bset y = x\x7d\x7d\x7b\x7b:y -> f()\x7d\x7d".toList).result =
        .ok [.text ['a'],.set ['y'] (.mk (.variable ['x'] []) []),
          .print (.mk (.variable ['y'] []) [.mk ['f'] [] 22])] := by cbv
    have hinner : (Template.render 1000 (.byName fun name => if name = ['f'] then some fun v _ => .ok v else none)
        { maxDepth := 1 } [(.text ['x'],.text ['7'])]
        "a\x7b\x7bset y = x\x7d\x7d\x7b\x7b:y -> f()\x7d\x7d".toList).result = .ok "a7".toList := by cbv
    obtain ⟨⟨output,hi,ho⟩ | ⟨stop,_,hi,_⟩ | ⟨breakdown,hi,_⟩,_⟩ :=
      render_wrapSource (fun name => if name = ['f'] then some fun v _ => .ok v else none)
        { maxDepth := 1 } [(.text ['x'],.text ['7'])] _ hread (hnot _)
    · rw [ho,← hi,hinner]
    · cases hinner.symm.trans hi
    · cases hinner.symm.trans hi
  · have hread : (Template.read 1000 (1 : Nat) "\x7b\x7b:x -> g()\x7d\x7d".toList).result =
        .ok [.print (.mk (.variable ['x'] []) [.mk ['g'] [] 8])] := by cbv
    have hinner : (Template.render 1000 (.byName fun _ => none) { maxDepth := 1 } []
        "\x7b\x7b:x -> g()\x7d\x7d".toList).result =
        .error (.stopped ⟨some "\x7b\x7b:x -> g()\x7d\x7d".toList,.unknownFunction ['g'] 8⟩) := by cbv
    obtain ⟨⟨output,hi,_⟩ | ⟨stop,stop',hi,ho,hproblem⟩ | ⟨breakdown,hi,_⟩,_⟩ :=
      render_wrapSource (fun _ => none) { maxDepth := 1 } [] _ hread (hnot _)
    · cases hinner.symm.trans hi
    · refine ⟨stop',ho,?_⟩
      obtain rfl := Failure.stopped.inj (Except.error.inj (hinner.symm.trans hi))
      exact hproblem
    · cases hinner.symm.trans hi

end Stencil

import Mathlib
import Stencil.Proofs.Evaluation.Agreement
import Stencil.Proofs.Reading.Document
import Stencil.Proofs.Reading.LocalityBlock
import Stencil.Proofs.Reading.PrintedBlock
import Stencil.Template.Basic

/-! # Conditions on their own and in a directive

A condition that stands alone in its text is read and evaluated as in a directive around
it: the same tree, five characters further on, the same calls, and a body that is there
just if the condition holds.
-/
namespace Stencil
open Grammar
variable {ceiling : Nat}

/-- A condition that is read alone is read in an opening tag. -/
theorem exists_opening {levels : Nat} {t : Text} {x : Condition} (hx : readCondition levels t = .ok x)
    (u : Text) : ∃ c₁ c₂ c₃,
      openTag "if".toList (.start (openToken "if".toList ++ ' ' :: (t ++ (closeToken ++ u)))) = .ok c₁ ∧
      condition levels c₁ = .ok (x.relocate (· + 5),c₂) ∧ closeTag c₂ = .ok c₃ ∧ c₃.rest = u ∧
      c₃.offset = t.length + 7 := by
  obtain ⟨d,hx,hd⟩ := readCondition_eq_ok.mp hx
  let w : Text := closeToken ++ u
  let c : Cursor := .start (openToken "if".toList ++ ' ' :: (t ++ w))
  have hv : Closed [] := begins_nil _
  have hw : Closed w := begins_cons _ _
  -- the opening tag takes the blanks in front of the condition, which the condition skips too
  have hc₁ : openTag "if".toList c = .ok (c.advance 5).skipBlank := by
    refine openTag_eq_ok.mpr ⟨⟨' ' :: (t ++ w),rfl⟩,?_⟩
    have hrest : (c.advance 4).rest = ' ' :: (t ++ w) := rfl
    exact (Cursor.skipBlank_of_blank hrest isBlank_space).symm
  have ht : Twins [] w 5 (.start t) (c.advance 5) := ⟨⟨t,(List.append_nil t).symm,rfl⟩,rfl⟩
  obtain ⟨c₂,hx',ht₂⟩ := carries_condition hv hw levels hx ht (Nat.zero_le _)
  have hrest₂ : c₂.skipBlank.rest = closeToken ++ u := by
    rw [(ht₂.skipBlank hv hw).rest_eq,hd,List.nil_append]
  obtain ⟨c₃,hc₃,hrest₃⟩ : ∃ c₃, closeTag c₂ = .ok c₃ ∧ c₃.rest = u :=
    exists_expect .closeDirective closeToken hrest₂
  refine ⟨_,c₂,c₃,hc₁,condition_of_skipBlank hx',hc₃,hrest₃,?_⟩
  have hreach : c.Reaches c₃ :=
    (Cursor.reaches_advance 5 c).trans ((moves_condition _ hx').trans (reaches_of_closeTag hc₃))
  have hsum := hreach.offset_of_start
  have hopen : (openToken "if".toList).length = 4 := rfl
  have hclose : closeToken.length = 2 := rfl
  rw [hrest₃] at hsum
  simp only [w,List.length_append,List.length_cons] at hsum
  omega

/-- A template that is read alone is read as a body before its end tag. -/
theorem exists_body {levels : Nat} {u : Text} {xs : List Block} {c : Cursor} (name : Text)
    (hxs : readBlocks levels u = .ok xs) (hrest : c.rest = u ++ endToken name) :
    ∃ d, body (levels + 1) c = .ok (xs.map (Block.relocate (· + c.offset)),d) ∧ d.rest = endToken name := by
  obtain ⟨e,hxs,he⟩ := readBlocks_eq_ok.mp hxs
  have hends := endsBlocks_endToken name []
  rw [List.append_nil] at hends
  have ht : Twins [] (endToken name) c.offset (.start u) c :=
    ⟨⟨u,(List.append_nil u).symm,hrest⟩,(Nat.zero_add _).symm⟩
  obtain ⟨d,hxs',ht'⟩ := carries_blockRounds (moves_body levels) (carriesBodies_body _ _ levels)
    (blocks_eq_ok.mp hxs) ht (Or.inr hends)
  refine ⟨d,blocks_eq_ok.mpr hxs',?_⟩
  rw [ht'.rest_eq,he,List.nil_append]

/-- A condition and a template that are read alone are read in a directive around them. -/
theorem readBlocks_branch {levels : Nat} {t u : Text} {x : Condition} {xs : List Block}
    (hx : readCondition (levels + 1) t = .ok x) (hxs : readBlocks levels u = .ok xs) :
    readBlocks (levels + 1)
        (openToken "if".toList ++ ' ' :: (t ++ (closeToken ++ (u ++ endToken "if".toList)))) =
      .ok [.branch (x.relocate (· + 5)) (xs.map (Block.relocate (· + (t.length + 7))))] := by
  let c : Cursor := .start (openToken "if".toList ++ ' ' :: (t ++ (closeToken ++ (u ++ endToken "if".toList))))
  obtain ⟨c₁,c₂,c₃,hc₁,hx',hc₃,hrest₃,hoffset⟩ := exists_opening hx (u ++ endToken "if".toList)
  obtain ⟨c₄,hxs',hrest₄⟩ := exists_body "if".toList hxs hrest₃
  rw [hoffset] at hxs'
  obtain ⟨d,hd,hrest⟩ := exists_endTag "if".toList (hrest₄.trans (List.append_nil _).symm)
  have hbranch : branchBlock (condition (levels + 1)) (body (levels + 1)) c = .ok (_,d) :=
    branchBlock_eq_ok.mpr ⟨c₁,_,c₂,c₃,_,c₄,hc₁,hx',hc₃,hxs',hd,rfl⟩
  have hopen : openToken "if".toList <+: c.rest :=
    ⟨' ' :: (t ++ (closeToken ++ (u ++ endToken "if".toList))),rfl⟩
  have hmem : ("if".toList,branchBlock (condition (levels + 1)) (body (levels + 1))) ∈
      directives (levels + 1) (body (levels + 1)) := List.mem_cons_self
  have hround := (blockWith_of_mem hmem hopen).trans hbranch
  have hstop : atBlock d = false := EndsBlocks.atBlock (Or.inl rfl) hrest
  exact readBlocks_eq_ok.mpr ⟨d,blocks_eq_ok.mpr
    (.next (atBlock_of_mem_directives hmem hopen) hround (.stop hstop)),hrest⟩

def Event.isCall : Event → Bool
  | .call _ _ _ => true
  | .message _ _ => false

/-- The calls of methods among the events, in order. -/
def Outcome.calls (o : Outcome α) : List Event := o.events.filter Event.isCall

theorem readCondition_outcome {limit : Int} {t : Text} {x : Condition}
    (h : readCondition (levelsFor ceiling limit) t = .ok x) :
    (Template.readCondition ceiling limit t).result = .ok x ∧ (Template.readCondition ceiling limit t).calls = [] := by
  obtain ⟨d,hx,hd⟩ := readCondition_eq_ok.mp h
  rw [Template.readCondition,readLeadingCondition,hx]
  simp only [checkRest_eq_ok.mpr hd,Outcome.calls]
  exact ⟨trivial,rfl⟩

/-- A text that is refused as a condition is not evaluated. -/
theorem check_refused (methods : Registry) {options : Options} (vars : Mapping) {t : Text}
    {fault : Fault} (h : readCondition (levelsFor ceiling options.maxDepth) t = .error fault) :
    ∃ refusal, (Template.check ceiling methods options vars t).result = .error (.refused refusal) := by
  have hread : ∃ refusal, (Template.readCondition ceiling options.maxDepth t).result =
      .error (.refused refusal) := by
    rw [Template.readCondition]
    rw [readCondition] at h
    cases hx : readLeadingCondition (levelsFor ceiling options.maxDepth) t with
    | error fault => exact ⟨_,rfl⟩
    | ok p =>
      rcases p with ⟨x,d⟩
      rw [hx] at h
      cases hd : checkRest d with
      | error fault =>
        simp only [hd]
        exact ⟨_,rfl⟩
      | ok u => simp [bind,Except.bind,hd,pure,Except.pure] at h
  obtain ⟨refusal,hr⟩ := hread
  refine ⟨refusal,?_⟩
  simp only [Template.check,Outcome.andThen,hr]

theorem check_evaluates (methods : Registry) {options : Options} (vars : Mapping) {t : Text}
    {x : Condition} (h : readCondition (levelsFor ceiling options.maxDepth) t = .ok x) :
    (Template.check ceiling methods options vars t).result =
      (x.eval ⟨.start vars,methods⟩).result.mapError (.ofEval (some t)) ∧
    (Template.check ceiling methods options vars t).calls =
      (x.eval ⟨.start vars,methods⟩).events.filter Event.isCall := by
  obtain ⟨hr,hc⟩ := readCondition_outcome h
  simp only [Outcome.calls] at hc
  simp only [Template.check,Template.checkCondition,Outcome.andThen,hr]
  rcases x.eval ⟨.start vars,methods⟩ with ⟨_ | holds,events⟩
  · exact ⟨rfl,by simp [Outcome.calls,Except.mapError,hc]⟩
  · refine ⟨rfl,?_⟩
    simp [Outcome.calls,Except.mapError,hc,Outcome.note,Outcome.map,Event.isCall]

theorem render_evaluates (methods : Registry) {options : Options} (vars : Mapping) {source : Text}
    {xs : List Block} (h : readBlocks (levelsFor ceiling options.maxDepth) source = .ok xs) :
    (Template.render ceiling methods options vars source).result =
      ((evalBlocks methods xs (.start vars)).result.mapError (.ofEval (some source))).map
        (fun p => Fragment.output options p.2) ∧
    (Template.render ceiling methods options vars source).calls =
      (evalBlocks methods xs (.start vars)).events.filter Event.isCall := by
  simp only [Template.render,Template.read,h,Outcome.andThen,Template.renderBlocks]
  rcases evalBlocks methods xs (.start vars) with ⟨_ | ⟨s,fragments⟩,events⟩
  · exact ⟨rfl,by simp [Outcome.calls,Event.isCall]⟩
  · refine ⟨rfl,?_⟩
    have hmap : ∀ warnings : List Text, (warnings.map (Event.message .warning)).filter Event.isCall = [] := by
      intro warnings
      simp [List.filter_eq_nil_iff,Event.isCall]
    simp [Outcome.calls,Event.isCall,hmap]

end Stencil

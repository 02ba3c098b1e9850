import Stencil.Proofs.Reading.Shape
import Stencil.Proofs.Tree.References

/-! # Where calls stand

What is read is mentioned in the tree in the order of the text, and the offset of a call is that
of its name. `Spans` says so for the part of the text that a reading takes.
-/
namespace Stencil.Grammar

/-- The calls stand one after the other in `source`, from the offset `first` on and before
`last`, each at a place where the text goes on with its name. -/
inductive Placed (source : Text) : Nat → List Reference → Nat → Prop where
  | nil {first last : Nat} (h : first ≤ last) : Placed source first [] last
  | variable {first last : Nat} {refs : List Reference} (root : Text)
      (h : Placed source first refs last) : Placed source first (.variable root :: refs) last
  | method {first offset last : Nat} {name : Text} {refs : List Reference} (hfirst : first ≤ offset)
      (hname : IsName name) (hplace : name <+: source.drop offset)
      (h : Placed source (offset + 1) refs last) :
      Placed source first (.method name offset :: refs) last

namespace Placed
variable {source : Text} {first middle last : Nat} {refs more : List Reference}

theorem of_le {first' : Nat} (hle : first' ≤ first) (h : Placed source first refs last) :
    Placed source first' refs last := by
  induction h with
  | nil h => exact .nil (by omega)
  | «variable» root _ ih => exact .variable root (ih hle)
  | method hfirst hname hplace h _ => exact .method (by omega) hname hplace h

theorem append (h : Placed source first refs middle) (h' : Placed source middle more last) :
    Placed source first (refs ++ more) last := by
  induction h with
  | nil hle => exact h'.of_le hle
  | «variable» root _ ih => exact .variable root (ih h')
  | method hfirst hname hplace _ ih => exact .method hfirst hname hplace (ih h')

end Placed

/-- From `c` up to `d` the mentioned calls stand in their places, if `c` is a place in `source`. -/
def Spans (source : Text) (refs : List Reference) (c d : Cursor) : Prop :=
  c.rest = source.drop c.offset →
    d.rest = source.drop d.offset ∧ Placed source c.offset refs d.offset

namespace Spans
variable {source : Text} {c d e : Cursor} {refs more : List Reference}

theorem of_reaches (source : Text) (h : c.Reaches d) : Spans source [] c d := by
  intro hc
  obtain ⟨n,hn,rfl⟩ := h
  have hoffset : (c.advance n).offset = c.offset + n := by
    rw [Cursor.offset_advance,Nat.min_eq_left hn]
  rw [hoffset,Cursor.rest_advance,hc,List.drop_drop]
  exact ⟨rfl,.nil (Nat.le_add_right _ _)⟩

theorem trans (h : Spans source refs c d) (h' : Spans source more d e) :
    Spans source (refs ++ more) c e := by
  intro hc
  obtain ⟨hd,hplaced⟩ := h hc
  obtain ⟨he,hplaced'⟩ := h' hd
  exact ⟨he,hplaced.append hplaced'⟩

theorem after (h : c.Reaches d) (h' : Spans source refs d e) : Spans source refs c e :=
  (of_reaches source h).trans h'

theorem upTo (h : Spans source refs c d) (h' : d.Reaches e) : Spans source refs c e := by
  have hspan := h.trans (of_reaches source h')
  rwa [List.append_nil] at hspan

theorem «variable» (root : Text) (h : Spans source refs c d) :
    Spans source (.variable root :: refs) c d := by
  intro hc
  obtain ⟨hd,hplaced⟩ := h hc
  exact ⟨hd,.variable root hplaced⟩

theorem method {problem : Problem} {function : Text} (hn : name problem c = .ok (function,d))
    (h : Spans source refs d e) : Spans source (.method function c.offset :: refs) c e := by
  intro hc
  obtain ⟨hd,hplaced⟩ := of_reaches source (consumes_name problem hn).1 hc
  obtain ⟨he,hrest⟩ := h hd
  have hoffset := (consumes_name problem hn).1.offset
  have hlt := (consumes_name problem hn).2
  refine ⟨he,.method (Nat.le_refl _) (isName_of_name hn) ?_ (hrest.of_le (by omega))⟩
  rw [← hc,(name_eq_ok.mp hn).1]
  exact nameAt_isPrefix c.rest

end Spans

/-- What is read is mentioned where it is read. -/
def Tracks (source : Text) (references : α → List Reference) (reading : Reading α) : Prop :=
  ∀ ⦃c x d⦄, reading c = .ok (x,d) → Spans source (references x) c d

theorem spans_rounds {source : Text} {references : α → List Reference} {test : Cursor → Bool}
    {item : Reading α} {c d : Cursor} {xs : List α}
    (hitem : ∀ ⦃c x d⦄, item c = .ok (x,d) → Spans source (references x) c d)
    (h : Rounds test item c xs d) : Spans source (xs.flatMap references) c d := by
  induction h with
  | stop => exact .of_reaches source (Cursor.Reaches.refl _)
  | next _ hx _ ih =>
    rw [List.flatMap_cons]
    exact (hitem hx).trans ih

section Arguments
variable {source : Text} {inner : Reading Arg} {c d : Cursor}
variable (hm : Moves inner) (ht : Tracks source Arg.references inner)
include ht

theorem spans_step {x : Step} (h : step inner c = .ok (x,d)) : Spans source x.references c d := by
  rcases step_eq_ok.mp h with ⟨_,field,hn,rfl⟩ | ⟨_,arg,c₁,hi,he,rfl⟩
  · exact .of_reaches source ((Cursor.reaches_advance 1 c).trans (consumes_name _ hn).1)
  · have harg := (ht hi).upTo ((Cursor.reaches_skipBlank c₁).trans (reaches_of_expect he))
    exact harg.after ((Cursor.reaches_advance 1 c).trans (Cursor.reaches_skipBlank _))

theorem spans_spacedParam {x : Param} (h : spacedParam inner c = .ok (x,d)) :
    Spans source x.references c d := by
  obtain ⟨c₁,hp,rfl⟩ := spacedParam_eq_ok.mp h
  obtain ⟨key,c₂,hn,⟨_,value,hi,rfl⟩ | ⟨_,rfl,rfl⟩⟩ := param_eq_ok.mp hp
  · have hvalue := (ht hi).upTo (Cursor.reaches_skipBlank c₁)
    exact hvalue.after ((consumes_name _ hn).1.trans <| (Cursor.reaches_skipBlank c₂).trans <|
      (Cursor.reaches_advance 1 _).trans (Cursor.reaches_skipBlank _))
  · exact .of_reaches source ((consumes_name _ hn).1.trans <| (Cursor.reaches_skipBlank c₂).trans
      (Cursor.reaches_skipBlank _))

include hm

theorem spans_operand {x : Operand} (h : operand inner c = .ok (x,d)) :
    Spans source x.references c d := by
  rcases operand_eq_ok.mp h with ⟨_,t,hl,rfl⟩ | ⟨_,_,hv⟩
  · exact .of_reaches source (consumes_literal hl).1
  · obtain ⟨root,c₁,steps,hn,hs,rfl⟩ := (variablePath_eq_ok hm).mp hv
    have hsteps := spans_rounds (fun _ _ _ hx => spans_step ht hx) hs
    rw [← stepsReferences_eq_flatMap] at hsteps
    exact .variable root (hsteps.after (consumes_name _ hn).1)

theorem spans_call {x : Call} (h : call inner c = .ok (x,d)) : Spans source x.references c d := by
  obtain ⟨function,c₁,c₂,params,c₃,hn,ho,hp,he,rfl⟩ := (call_eq_ok hm).mp h
  have hparams := spans_rounds (fun _ _ _ hx => spans_spacedParam ht hx) hp
  rw [← paramsReferences_eq_flatMap] at hparams
  refine .method hn ((hparams.upTo (reaches_of_expect he)).after ?_)
  exact (Cursor.reaches_skipBlank c₁).trans <| (reaches_of_expect ho).trans
    (Cursor.reaches_skipBlank c₂)

theorem spans_pipedCall {x : Call} (h : pipedCall inner c = .ok (x,d)) :
    Spans source x.references c d := by
  obtain ⟨c₁,hx,rfl⟩ := pipedCall_eq_ok.mp h
  exact ((spans_call hm ht hx).upTo (Cursor.reaches_skipBlank c₁)).after
    ((Cursor.reaches_advance 2 c).trans (Cursor.reaches_skipBlank _))

theorem tracks_argumentWith : Tracks source Arg.references (argumentWith inner) := by
  intro c x d h
  obtain ⟨first,c₁,calls,ho,hr,rfl⟩ := (argumentWith_eq_ok hm).mp h
  have hcalls := spans_rounds (fun _ _ _ hx => spans_pipedCall hm ht hx) hr
  rw [← callsReferences_eq_flatMap] at hcalls
  exact ((spans_operand hm ht ho).after (Cursor.reaches_skipBlank c)).trans
    (hcalls.after (Cursor.reaches_skipBlank c₁))

end Arguments

section Levels
variable (source : Text) (levels : Nat)

theorem tracks_nestedArgument : Tracks source Arg.references (nestedArgument levels) := by
  induction levels with
  | zero =>
    intro c x d h
    cases h
  | succ levels ih =>
    rw [nestedArgument,argument_eq]
    exact tracks_argumentWith (moves_nestedArgument levels) ih

theorem tracks_argument : Tracks source Arg.references (argument levels) := by
  rw [argument_eq]
  exact tracks_argumentWith (moves_nestedArgument levels) (tracks_nestedArgument source levels)

theorem tracks_array : Tracks source (List.flatMap Arg.references) (array levels) := by
  intro c xs d h
  have hitem : Tracks source Arg.references (arrayItem (nestedArgument levels)) := by
    intro c x d h
    obtain ⟨c₁,hi,rfl⟩ := arrayItem_eq_ok.mp h
    exact ((tracks_nestedArgument source levels hi).upTo (Cursor.reaches_skipBlank c₁)).after
      (Cursor.reaches_skipBlank c)
  obtain ⟨c₁,item,c₂,items,c₃,ho,hi,hr,he,rfl⟩ := (arrayWith_eq_ok (moves_nestedArgument levels)).mp h
  have hitems : Spans source (items.flatMap Arg.references) c₂ c₃ :=
    spans_rounds (fun c _ _ hx => (hitem hx).after (Cursor.reaches_advance 1 c)) hr
  rw [List.flatMap_cons]
  exact ((hitem hi).after (reaches_of_expect ho)).trans (hitems.upTo (reaches_of_expect he))

theorem spans_leafTail {left : Arg} {negated : Bool} {b c d : Cursor} {x : Condition}
    (hleft : Spans source left.references b c)
    (h : leafTail (argument levels) (array levels) left negated c = .ok (x,d)) :
    Spans source x.references b d := by
  rcases leafTail_eq_ok.mp h with ⟨_,c₁,right,hk,hr,rfl⟩ | ⟨_,c₁,items,hk,hi,rfl⟩ | ⟨_,_,_,rfl,rfl⟩
  · exact hleft.trans ((tracks_argument source levels hr).after (reaches_of_word? hk))
  · exact hleft.trans ((tracks_array source levels hi).after (reaches_of_keyword? hk))
  · exact hleft

theorem tracks_condition : Tracks source Condition.references (condition levels) := by
  induction levels with
  | zero =>
    intro c x d h
    cases h
  | succ levels ih =>
    intro c x d h
    obtain ⟨left,c₁,ho,hr⟩ := conditionWith_eq_ok.mp h
    have hleft : Spans source left.references c.skipBlank c₁ := by
      rcases operandWith_eq_ok.mp ho with ⟨_,inside,c₂,hi,he,rfl⟩ | ⟨_,_,hl⟩
      · exact ((ih hi).upTo ((Cursor.reaches_skipBlank c₂).trans (reaches_of_expect he))).after
          ((Cursor.reaches_advance 1 _).trans (Cursor.reaches_skipBlank _))
      · obtain ⟨arg,c₂,ha,ht⟩ := leafWith_eq_ok.mp hl
        exact spans_leafTail source _ ((tracks_argument source _ ha).upTo
          ((Cursor.reaches_skipBlank c₂).trans (reaches_afterNot _))) ht
    have hleft' := (hleft.after (Cursor.reaches_skipBlank c)).upTo (Cursor.reaches_skipBlank c₁)
    rcases conditionTail_eq_ok.mp hr with ⟨_,c₂,right,hk,hi,rfl⟩ | ⟨_,rfl,rfl⟩
    · exact hleft'.trans ((ih hi).after (reaches_of_word? hk))
    · exact hleft'

theorem tracks_loopSource :
    Tracks source LoopSource.references (loopSource (argument levels) (array levels)) := by
  intro c x d h
  have hstart := (Cursor.reaches_advance 2 c).trans (Cursor.reaches_skipBlank _)
  rcases loopSource_eq_ok.mp h with ⟨_,first,c₁,c₂,last,hf,he,hl,rfl⟩ | ⟨_,items,hi,rfl⟩
  · exact ((tracks_argument source levels hf).after hstart).trans
      ((tracks_argument source levels hl).after (reaches_of_expect he))
  · exact (tracks_array source levels hi).after hstart

theorem spans_assignment {directive target : Text} {arg : Arg} {c d : Cursor}
    (h : assignment (argument levels) directive c = .ok ((target,arg),d)) :
    Spans source arg.references c d := by
  obtain ⟨c₁,c₂,c₃,c₄,ho,hn,he,ha,hc⟩ := assignment_eq_ok.mp h
  refine ((tracks_argument source levels ha).upTo (reaches_of_closeTag hc)).after ?_
  exact (reaches_of_openTag ho).trans <| (consumes_name _ hn).1.trans <|
    (Cursor.reaches_skipBlank c₂).trans <| (reaches_of_expect he).trans (Cursor.reaches_skipBlank c₃)

theorem tracks_directive {inner : Reading (List Block)} (hb : Tracks source blocksReferences inner)
    {entry : Text × Reading Block} (hm : entry ∈ directives levels inner) :
    Tracks source Block.references entry.2 := by
  intro c x d h
  simp only [directives,List.mem_cons,List.not_mem_nil,or_false] at hm
  rcases hm with rfl | rfl | rfl | rfl | rfl | rfl | rfl
  · obtain ⟨c₁,test,c₂,c₃,blocks,c₄,ho,hx,hc,hxs,he,rfl⟩ := branchBlock_eq_ok.mp h
    exact ((tracks_condition source levels hx).after (reaches_of_openTag ho)).trans
      (((hb hxs).upTo (reaches_of_expect he)).after (reaches_of_closeTag hc))
  · obtain ⟨c₁,target,c₂,loop,c₃,c₄,blocks,c₅,ho,hn,hs,hc,hxs,he,rfl⟩ := loopBlock_eq_ok.mp h
    have hstart := (reaches_of_openTag ho).trans ((consumes_name _ hn).1.trans
      (Cursor.reaches_skipBlank c₂))
    exact ((tracks_loopSource source levels hs).after hstart).trans
      (((hb hxs).upTo (reaches_of_expect he)).after (reaches_of_closeTag hc))
  · obtain ⟨target,arg,ha,rfl⟩ := setBlock_eq_ok.mp h
    exact spans_assignment source levels ha
  · obtain ⟨c₁,side,c₂,ho,hs,hc,rfl⟩ := trimBlock_eq_ok.mp h
    exact .of_reaches source (consumes_trimBlock h).1
  · obtain ⟨c₁,ho,hc,rfl⟩ := newlineBlock_eq_ok.mp h
    exact .of_reaches source (consumes_newlineBlock h).1
  · obtain ⟨c₁,arg,c₂,ho,ha,hc,rfl⟩ := printBlock_eq_ok.mp h
    exact ((tracks_argument source levels ha).upTo (reaches_of_closeTag hc)).after
      (reaches_of_openTag ho)
  · obtain ⟨target,arg,ha,rfl⟩ := confBlock_eq_ok.mp h
    exact spans_assignment source levels ha

theorem tracks_blockWith {inner : Reading (List Block)} (hb : Tracks source blocksReferences inner) :
    Tracks source Block.references (blockWith levels inner) := by
  intro c x d h
  simp only [blockWith] at h
  split at h
  · obtain ⟨entry,hm,_,hx⟩ := directiveWith_eq_ok.mp h
    exact tracks_directive source levels hb hm hx
  · have hreach := moves_textBlock h
    rcases textBlock_eq_ok.mp h with ⟨_,_,_,_,rfl,_⟩ | ⟨_,rfl,_⟩ <;> exact .of_reaches source hreach

theorem tracks_body : Tracks source blocksReferences (body levels) := by
  induction levels with
  | zero =>
    intro c xs d h
    cases h
  | succ levels ih =>
    intro c xs d h
    have hxs := spans_rounds (fun _ _ _ hx => tracks_blockWith source levels ih hx) (blocks_eq_ok.mp h)
    rwa [← blocksReferences_eq_flatMap] at hxs

end Levels
end Stencil.Grammar

namespace Stencil
open Grammar
variable {levels : Nat} {source : Text}

theorem placed_readBlocks {xs : List Block} (h : readBlocks levels source = .ok xs) :
    ∃ last, Placed source 0 (blocksReferences xs) last := by
  obtain ⟨d,hxs,_⟩ := readBlocks_eq_ok.mp h
  have hspan := spans_rounds
    (fun _ _ _ hx => tracks_blockWith source levels (tracks_body source levels) hx) (blocks_eq_ok.mp hxs)
  rw [← blocksReferences_eq_flatMap] at hspan
  exact ⟨_,(hspan rfl).2⟩

theorem placed_readCondition {x : Condition} (h : readCondition levels source = .ok x) :
    ∃ last, Placed source 0 x.references last := by
  obtain ⟨d,hx,_⟩ := readCondition_eq_ok.mp h
  exact ⟨_,(tracks_condition source levels hx rfl).2⟩

end Stencil

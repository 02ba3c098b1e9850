import Stencil.Proofs.Reading.Document
import Stencil.Proofs.Tree.Shape

/-! # The shape of what is read

Whatever a reading returns is well formed and opens no more levels than were left. The
statements follow the productions; `Below levels` is what they ask of the arguments that
stand one level deeper.
-/
namespace Stencil.Grammar
variable {inner : Reading Arg} {levels : Nat} {c d : Cursor}

theorem isName_nameAt {s : Text} (h : nameAt s ≠ []) : IsName (nameAt s) := by
  cases s with
  | nil => exact absurd rfl h
  | cons c s =>
    simp only [nameAt] at h ⊢
    split at h
    · next hc =>
      rw [if_pos hc]
      exact ⟨hc,fun x hx => List.all_eq_true.mp List.all_takeWhile x hx⟩
    · exact absurd rfl h

theorem isName_of_name {problem : Problem} {t : Text} (h : name problem c = .ok (t,d)) :
    IsName t := by
  obtain ⟨rfl,hne,_⟩ := name_eq_ok.mp h
  exact isName_nameAt hne

/-- What is read is well formed and opens less than `levels` levels. -/
def Below (levels : Nat) (inner : Reading Arg) : Prop :=
  ∀ ⦃c a d⦄, inner c = .ok (a,d) → a.WellFormed ∧ a.nesting < levels

theorem shape_of_step (hb : Below levels inner) {x : Step} (h : step inner c = .ok (x,d)) :
    x.WellFormed ∧ x.nesting ≤ levels := by
  rcases step_eq_ok.mp h with ⟨_,field,hn,rfl⟩ | ⟨_,arg,c₁,hi,_,rfl⟩
  · exact ⟨isName_of_name hn,Nat.zero_le _⟩
  · obtain ⟨hw,hl⟩ := hb hi
    exact ⟨hw,hl⟩

theorem shape_of_steps (hb : Below levels inner) {xs : List Step}
    (h : Rounds atStep (step inner) c xs d) : StepsWellFormed xs ∧ stepsNesting xs ≤ levels := by
  induction h with
  | stop => exact ⟨trivial,Nat.zero_le _⟩
  | next _ hx _ ih =>
    obtain ⟨hw,hl⟩ := shape_of_step hb hx
    exact ⟨⟨hw,ih.1⟩,Nat.max_le.mpr ⟨hl,ih.2⟩⟩

theorem shape_of_operand (hm : Moves inner) (hb : Below levels inner) {x : Operand}
    (h : operand inner c = .ok (x,d)) : x.WellFormed ∧ x.nesting ≤ levels := by
  rcases operand_eq_ok.mp h with ⟨_,t,_,rfl⟩ | ⟨_,_,hv⟩
  · exact ⟨trivial,Nat.zero_le _⟩
  · obtain ⟨root,c₁,steps,hn,hs,rfl⟩ := (variablePath_eq_ok hm).mp hv
    obtain ⟨hw,hl⟩ := shape_of_steps hb hs
    exact ⟨⟨isName_of_name hn,hw⟩,hl⟩

theorem shape_of_spacedParam (hb : Below levels inner) {x : Param}
    (h : spacedParam inner c = .ok (x,d)) : x.WellFormed ∧ x.nesting ≤ levels := by
  obtain ⟨c₁,hp,_⟩ := spacedParam_eq_ok.mp h
  obtain ⟨key,c₂,hn,⟨_,value,hi,rfl⟩ | ⟨_,rfl,_⟩⟩ := param_eq_ok.mp hp
  · obtain ⟨hw,hl⟩ := hb hi
    exact ⟨⟨isName_of_name hn,hw⟩,hl⟩
  · exact ⟨isName_of_name hn,Nat.zero_le _⟩

theorem shape_of_params (hb : Below levels inner) {xs : List Param}
    (h : Rounds atName (spacedParam inner) c xs d) :
    ParamsWellFormed xs ∧ paramsNesting xs ≤ levels := by
  induction h with
  | stop => exact ⟨trivial,Nat.zero_le _⟩
  | next _ hx _ ih =>
    obtain ⟨hw,hl⟩ := shape_of_spacedParam hb hx
    exact ⟨⟨hw,ih.1⟩,Nat.max_le.mpr ⟨hl,ih.2⟩⟩

theorem shape_of_pipedCall (hm : Moves inner) (hb : Below levels inner) {x : Call}
    (h : pipedCall inner c = .ok (x,d)) : x.WellFormed ∧ x.nesting ≤ levels := by
  obtain ⟨c₁,hc,_⟩ := pipedCall_eq_ok.mp h
  obtain ⟨function,c₂,c₃,params,c₄,hn,_,hp,_,rfl⟩ := (call_eq_ok hm).mp hc
  obtain ⟨hw,hl⟩ := shape_of_params hb hp
  exact ⟨⟨isName_of_name hn,hw⟩,hl⟩

theorem shape_of_calls (hm : Moves inner) (hb : Below levels inner) {xs : List Call}
    (h : Rounds atArrow (pipedCall inner) c xs d) :
    CallsWellFormed xs ∧ callsNesting xs ≤ levels := by
  induction h with
  | stop => exact ⟨trivial,Nat.zero_le _⟩
  | next _ hx _ ih =>
    obtain ⟨hw,hl⟩ := shape_of_pipedCall hm hb hx
    exact ⟨⟨hw,ih.1⟩,Nat.max_le.mpr ⟨hl,ih.2⟩⟩

theorem shape_of_argumentWith (hm : Moves inner) (hb : Below levels inner) {x : Arg}
    (h : argumentWith inner c = .ok (x,d)) : x.WellFormed ∧ x.nesting ≤ levels := by
  obtain ⟨first,c₁,calls,ho,hc,rfl⟩ := (argumentWith_eq_ok hm).mp h
  obtain ⟨hwo,hlo⟩ := shape_of_operand hm hb ho
  obtain ⟨hwc,hlc⟩ := shape_of_calls hm hb hc
  exact ⟨⟨hwo,hwc⟩,Nat.max_le.mpr ⟨hlo,hlc⟩⟩

theorem below_nestedArgument (levels : Nat) : Below levels (nestedArgument levels) := by
  induction levels with
  | zero =>
    intro c a d h
    cases h
  | succ levels ih =>
    intro c a d h
    rw [nestedArgument,argument_eq] at h
    obtain ⟨hw,hl⟩ := shape_of_argumentWith (moves_nestedArgument levels) ih h
    exact ⟨hw,Nat.lt_succ_of_le hl⟩

theorem shape_of_argument {x : Arg} (h : argument levels c = .ok (x,d)) :
    x.WellFormed ∧ x.nesting ≤ levels := by
  rw [argument_eq] at h
  exact shape_of_argumentWith (moves_nestedArgument levels) (below_nestedArgument levels) h

theorem shape_of_items (hb : Below levels inner) {xs : List Arg}
    (h : Rounds atComma (nextItem inner) c xs d) :
    (∀ x ∈ xs, x.WellFormed) ∧ itemsNesting xs ≤ levels := by
  induction h with
  | stop => exact ⟨fun x hx => absurd hx List.not_mem_nil,Nat.zero_le _⟩
  | next _ hx _ ih =>
    obtain ⟨c₁,hi,_⟩ := arrayItem_eq_ok.mp hx
    obtain ⟨hw,hl⟩ := hb hi
    exact ⟨List.forall_mem_cons.mpr ⟨hw,ih.1⟩,Nat.max_le.mpr ⟨hl,ih.2⟩⟩

theorem shape_of_array {xs : List Arg} (h : array levels c = .ok (xs,d)) :
    ItemsWellFormed xs ∧ itemsNesting xs ≤ levels := by
  obtain ⟨c₁,item,c₂,items,c₃,_,hx,hr,_,rfl⟩ := (arrayWith_eq_ok (moves_nestedArgument levels)).mp h
  obtain ⟨c₄,hi,_⟩ := arrayItem_eq_ok.mp hx
  obtain ⟨hw,hl⟩ := below_nestedArgument levels hi
  obtain ⟨hws,hls⟩ := shape_of_items (below_nestedArgument levels) hr
  exact ⟨⟨List.cons_ne_nil _ _,List.forall_mem_cons.mpr ⟨hw,hws⟩⟩,Nat.max_le.mpr ⟨hl,hls⟩⟩

/-- A leaf is no join, and its arguments and items fit into the levels below its own. -/
theorem shape_of_leafTail {left : Arg} {negated : Bool} {x : Condition}
    (hw : left.WellFormed) (hl : left.nesting ≤ levels)
    (h : leafTail (argument levels) (array levels) left negated c = .ok (x,d)) :
    ¬x.IsJoin ∧ x.WellFormed ∧ x.nesting ≤ levels + 1 := by
  rcases leafTail_eq_ok.mp h with ⟨_,_,right,_,hr,rfl⟩ | ⟨_,_,items,_,hi,rfl⟩ | ⟨_,_,_,rfl,_⟩
  · obtain ⟨hwr,hlr⟩ := shape_of_argument hr
    exact ⟨id,⟨hw,hwr⟩,Nat.succ_le_succ (Nat.max_le.mpr ⟨hl,hlr⟩)⟩
  · obtain ⟨hwi,hli⟩ := shape_of_array hi
    exact ⟨id,⟨hw,hwi⟩,Nat.succ_le_succ (Nat.max_le.mpr ⟨hl,hli⟩)⟩
  · exact ⟨id,hw,Nat.succ_le_succ hl⟩

theorem shape_of_condition {x : Condition} (h : condition levels c = .ok (x,d)) :
    x.WellFormed ∧ x.nesting ≤ levels := by
  induction levels generalizing c x d with
  | zero => cases h
  | succ levels ih =>
    obtain ⟨left,c₁,ho,ht⟩ := conditionWith_eq_ok.mp h
    have hleft : ¬left.IsJoin ∧ left.WellFormed ∧ left.nesting ≤ levels + 1 := by
      rcases operandWith_eq_ok.mp ho with ⟨_,inside,c₂,hi,_,rfl⟩ | ⟨_,_,hl⟩
      · obtain ⟨hw,hn⟩ := ih hi
        exact ⟨id,hw,Nat.succ_le_succ hn⟩
      · obtain ⟨arg,c₂,ha,hr⟩ := leafWith_eq_ok.mp hl
        obtain ⟨hw,hn⟩ := shape_of_argument ha
        exact shape_of_leafTail hw hn hr
    rcases conditionTail_eq_ok.mp ht with ⟨_,_,right,_,hr,rfl⟩ | ⟨_,rfl,_⟩
    · obtain ⟨hw,hn⟩ := ih hr
      exact ⟨⟨hleft.1,hleft.2.1,hw⟩,Nat.max_le.mpr ⟨hleft.2.2,Nat.succ_le_succ hn⟩⟩
    · exact hleft.2

theorem endsText_skipWhile (c : Cursor) : EndsText (c.skipWhile isTextChar).rest := by
  intro x hx
  have h := List.head?_dropWhile_not isTextChar c.rest
  rw [← Cursor.rest_skipWhile,Option.mem_def.mp hx] at h
  exact h

theorem shape_of_textBlock {x : Block} {afterText : Bool} (h : textBlock c = .ok (x,d))
    (hb : c.rest.head? ≠ some '\x7b') (hc : c.rest ≠ [])
    (ha : afterText = true → EndsText c.rest) :
    ∃ t, x = .text t ∧ TextWellFormed afterText t ∧ EndsText d.rest := by
  rcases textBlock_eq_ok.mp h with ⟨p,q,s,hs,rfl,rfl⟩ | ⟨hn,rfl,rfl⟩
  · refine ⟨_,rfl,⟨List.cons_ne_nil _ _,fun y hy => ?_,fun _ => by simp⟩,endsText_skipWhile _⟩
    exact List.all_eq_true.mp List.all_takeWhile y hy
  · obtain ⟨y,s,hs⟩ := List.exists_cons_of_ne_nil hc
    have hy : isTextChar y = true := by
      simp only [hs,List.head?_cons,ne_eq,Option.some.injEq] at hb hn
      simp [isTextChar,hb,hn]
    have hplain : ∀ z ∈ c.rest.takeWhile isTextChar, isTextChar z = true :=
      List.all_eq_true.mp List.all_takeWhile
    refine ⟨_,rfl,⟨?_,fun z hz => hplain z (List.mem_of_mem_drop hz),?_⟩,endsText_skipWhile c⟩
    · rw [hs,List.takeWhile_cons,if_pos hy]
      exact List.cons_ne_nil _ _
    · rintro (ht | ⟨z,hz,hf⟩)
      · simp [ha ht y (by simp [hs])] at hy
      · simp [hplain z hz] at hf

theorem shape_of_loopSource {x : LoopSource}
    (h : loopSource (argument levels) (array levels) c = .ok (x,d)) :
    x.WellFormed ∧ x.nesting ≤ levels := by
  rcases loopSource_eq_ok.mp h with ⟨_,first,c₁,c₂,last,hf,_,hl,rfl⟩ | ⟨_,items,hi,rfl⟩
  · obtain ⟨hwf,hnf⟩ := shape_of_argument hf
    obtain ⟨hwl,hnl⟩ := shape_of_argument hl
    exact ⟨⟨hwf,hwl⟩,Nat.max_le.mpr ⟨hnf,hnl⟩⟩
  · exact shape_of_array hi

theorem shape_of_assignment {directive target : Text} {arg : Arg}
    (h : assignment (argument levels) directive c = .ok ((target,arg),d)) :
    IsName target ∧ arg.WellFormed ∧ arg.nesting ≤ levels := by
  obtain ⟨c₁,c₂,c₃,c₄,_,hn,_,ha,_⟩ := assignment_eq_ok.mp h
  exact ⟨isName_of_name hn,shape_of_argument ha⟩

theorem shape_of_directiveWith {body : Reading (List Block)} {x : Block}
    (hbody : ∀ ⦃c xs d⦄, body c = .ok (xs,d) → BlocksWellFormed false xs ∧ blocksNesting xs < levels)
    (h : directiveWith levels body c = .ok (x,d)) :
    x.isText = false ∧ (∀ afterText, x.WellFormed afterText) ∧ x.nesting ≤ levels := by
  obtain ⟨entry,hm,_,hx⟩ := directiveWith_eq_ok.mp h
  simp only [directives,List.mem_cons,List.not_mem_nil,or_false] at hm
  rcases hm with rfl | rfl | rfl | rfl | rfl | rfl | rfl
  · obtain ⟨c₁,test,c₂,c₃,blocks,c₄,_,ht,_,hb,_,rfl⟩ := branchBlock_eq_ok.mp hx
    obtain ⟨hw,hn⟩ := shape_of_condition ht
    obtain ⟨hwb,hnb⟩ := hbody hb
    exact ⟨rfl,fun _ => ⟨hw,hwb⟩,Nat.max_le.mpr ⟨hn,hnb⟩⟩
  · obtain ⟨c₁,target,c₂,source,c₃,c₄,blocks,c₅,_,hname,hs,_,hb,_,rfl⟩ := loopBlock_eq_ok.mp hx
    obtain ⟨hw,hn⟩ := shape_of_loopSource hs
    obtain ⟨hwb,hnb⟩ := hbody hb
    exact ⟨rfl,fun _ => ⟨isName_of_name hname,hw,hwb⟩,Nat.max_le.mpr ⟨hn,hnb⟩⟩
  · obtain ⟨target,arg,ha,rfl⟩ := setBlock_eq_ok.mp hx
    obtain ⟨hname,hw,hn⟩ := shape_of_assignment ha
    exact ⟨rfl,fun _ => ⟨hname,hw⟩,hn⟩
  · obtain ⟨c₁,side,c₂,_,_,_,rfl⟩ := trimBlock_eq_ok.mp hx
    exact ⟨rfl,fun _ => trivial,Nat.zero_le _⟩
  · obtain ⟨c₁,_,_,rfl⟩ := newlineBlock_eq_ok.mp hx
    exact ⟨rfl,fun _ => trivial,Nat.zero_le _⟩
  · obtain ⟨c₁,arg,c₂,_,ha,_,rfl⟩ := printBlock_eq_ok.mp hx
    obtain ⟨hw,hn⟩ := shape_of_argument ha
    exact ⟨rfl,fun _ => hw,hn⟩
  · obtain ⟨target,arg,ha,rfl⟩ := confBlock_eq_ok.mp hx
    obtain ⟨hname,hw,hn⟩ := shape_of_assignment ha
    exact ⟨rfl,fun _ => ⟨hname,hw⟩,hn⟩

/-- Round by round. After a text the next round begins at a brace or backslash. -/
theorem shape_of_rounds {body : Reading (List Block)} {xs : List Block} {afterText : Bool}
    (hbody : ∀ ⦃c xs d⦄, body c = .ok (xs,d) → BlocksWellFormed false xs ∧ blocksNesting xs < levels)
    (h : Rounds atBlock (blockWith levels body) c xs d) (ha : afterText = true → EndsText c.rest) :
    BlocksWellFormed afterText xs ∧ blocksNesting xs ≤ levels := by
  induction h generalizing afterText with
  | stop => exact ⟨trivial,Nat.zero_le _⟩
  | @next c c₁ d x xs ht hx _ ih =>
    simp only [blockWith] at hx
    split at hx
    · obtain ⟨hf,hw,hn⟩ := shape_of_directiveWith hbody hx
      have hxs : BlocksWellFormed x.isText xs ∧ blocksNesting xs ≤ levels :=
        ih fun h => by simp [hf] at h
      exact ⟨⟨hw afterText,hxs.1⟩,Nat.max_le.mpr ⟨hn,hxs.2⟩⟩
    · next hb =>
      have hc : c.rest ≠ [] := by
        intro hc
        simp [atBlock,Cursor.atEnd,hc] at ht
      obtain ⟨t,rfl,hw,he⟩ := shape_of_textBlock hx hb hc ha
      have hxs : BlocksWellFormed true xs ∧ blocksNesting xs ≤ levels := ih fun _ => he
      exact ⟨⟨hw,hxs.1⟩,Nat.max_le.mpr ⟨Nat.zero_le _,hxs.2⟩⟩

theorem shape_of_body {xs : List Block} (h : body levels c = .ok (xs,d)) :
    BlocksWellFormed false xs ∧ blocksNesting xs < levels := by
  induction levels generalizing c xs d with
  | zero => cases h
  | succ levels ih =>
    have hxs : BlocksWellFormed false xs ∧ blocksNesting xs ≤ levels :=
      shape_of_rounds (fun _ _ _ hb => ih hb) (blocks_eq_ok.mp h) fun hf => by cases hf
    exact ⟨hxs.1,Nat.lt_succ_of_le hxs.2⟩

theorem shape_of_blocks {xs : List Block} (h : blocks levels c = .ok (xs,d)) :
    BlocksWellFormed false xs ∧ blocksNesting xs ≤ levels :=
  shape_of_rounds (fun _ _ _ hb => shape_of_body hb) (blocks_eq_ok.mp h) fun hf => by cases hf

end Stencil.Grammar

namespace Stencil
open Grammar
variable {levels : Nat} {source : Text}

theorem shape_of_readBlocks {xs : List Block} (h : readBlocks levels source = .ok xs) :
    BlocksWellFormed false xs ∧ blocksNesting xs ≤ levels := by
  obtain ⟨d,hxs,_⟩ := readBlocks_eq_ok.mp h
  exact shape_of_blocks hxs

theorem shape_of_readCondition {x : Condition} (h : readCondition levels source = .ok x) :
    x.WellFormed ∧ x.nesting ≤ levels := by
  obtain ⟨d,hx,_⟩ := readCondition_eq_ok.mp h
  exact shape_of_condition hx

end Stencil

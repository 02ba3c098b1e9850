import Stencil.Proofs.Reading.Condition
import Stencil.Proofs.Tree.Relocation

/-! # Reading in step

Two cursors are in step if the lexemes at the one are the lexemes at the other. The readings of
arguments and conditions then find the same tree at both, but for the offsets of its calls. What
a relation of cursors owes for that are the fields of `Lockstep`; the productions follow from
them.
-/
namespace Stencil.Grammar

/-- The tokens of arguments and leaves whose absence decides how the reading goes on. -/
def lookAheads : List Text :=
  [['.'],['.','.'],['['],['-','>'],[','],['='],['('],"not".toList,"eq".toList,"like".toList,"in".toList]

/-- The tokens that are required behind what they close. -/
def closers : List Text := [[']'],[')']]

/-- The token stands at both of two cursors that `T` relates, with related cursors behind it, or at
neither. -/
structure Heeds (T : Cursor → Cursor → Prop) (token : Text) : Prop where
  present : ∀ ⦃c c'⦄, T c c' → token <+: c.rest →
    token <+: c'.rest ∧ T (c.advance token.length) (c'.advance token.length)
  absent : ∀ ⦃c c'⦄, T c c' → ¬ token <+: c.rest → ¬ token <+: c'.rest

/-- Cursors that `T` relates are in step: the same tokens and names stand at both, and what stands
behind them is in step again. What is quoted or required has to leave a cursor that satisfies
`G`, as all cursors before such a one do. An offset is changed by `f`. -/
structure Lockstep (f : Nat → Nat) (G : Cursor → Prop) (T : Cursor → Cursor → Prop) : Prop where
  guard : ∀ ⦃c d⦄, c.Reaches d → G d → G c
  offset : ∀ ⦃c c'⦄, T c c' → c.rest ≠ [] → c'.offset = f c.offset
  atName : ∀ ⦃c c'⦄, T c c' → c.rest ≠ [] → atName c' = atName c
  atQuote : ∀ ⦃c c'⦄, T c c' → c.rest ≠ [] → atQuote c' = atQuote c
  heeds : ∀ token ∈ lookAheads, Heeds T token
  skipBlank : ∀ ⦃c c'⦄, T c c' → T c.skipBlank c'.skipBlank
  expect : ∀ ⦃c c' d role token⦄, T c c' → token ∈ closers → expect role token c = .ok d → G d →
    ∃ d', expect role token c' = .ok d' ∧ T d d'
  name : ∀ ⦃c c' d problem t⦄, T c c' → name problem c = .ok (t,d) →
    ∃ d', name problem c' = .ok (t,d') ∧ T d d'
  literal : ∀ ⦃c c' d t⦄, T c c' → literal c = .ok (t,d) → G d →
    ∃ d', literal c' = .ok (t,d') ∧ T d d'

/-- What is read at the one cursor is read at the other, changed by `g`. -/
def Follows (G : Cursor → Prop) (T : Cursor → Cursor → Prop) (g : α → α) (reading : Reading α) : Prop :=
  ∀ ⦃c c' d x⦄, reading c = .ok (x,d) → T c c' → G d → ∃ d', reading c' = .ok (g x,d') ∧ T d d'

theorem head?_eq_iff_singleton {x : Char} {s : Text} : s.head? = some x ↔ [x] <+: s := by
  cases s with
  | nil => simp
  | cons y s => simp [eq_comm]

theorem ne_nil_of_any_head {p : Char → Bool} {s : Text} (h : s.head?.any p = true) : s ≠ [] := by
  rintro rfl
  cases h

theorem rest_ne_nil_of_name {problem : Problem} {t : Text} {c d : Cursor}
    (h : name problem c = .ok (t,d)) : c.rest ≠ [] := by
  intro hc
  have hlt := (consumes_name problem h).2
  rw [hc] at hlt
  exact Nat.not_lt_zero _ hlt

theorem rest_ne_nil_of_expect {role : Role} {token : Text} {c d : Cursor} (ht : token ≠ [])
    (h : expect role token c = .ok d) : c.rest ≠ [] := by
  intro hc
  obtain ⟨hp,_⟩ := expect_eq_ok.mp h
  rw [hc] at hp
  exact ht (List.prefix_nil.mp hp)

theorem atStep_iff {c : Cursor} : atStep c = true ↔
    (['.'] <+: c.rest ∧ ¬ ['.','.'] <+: c.rest) ∨ ['['] <+: c.rest := by
  unfold atStep
  split
  · next h => simp [h]
  · next s hs h =>
    have hs : ¬ ['.','.'] <+: '.' :: s := by
      rintro ⟨r,hr⟩
      exact hs r (List.cons.inj hr).2.symm
    simp [h,hs]
  · next h => simp [h]
  · next h₁ h₂ h₃ =>
    simp only [Bool.false_eq_true,false_iff]
    rintro (⟨⟨r,hr⟩,_⟩ | ⟨r,hr⟩)
    · exact h₂ r hr.symm
    · exact h₃ r hr.symm

variable {f : Nat → Nat} {G : Cursor → Prop} {T : Cursor → Cursor → Prop} {c c' d : Cursor}

theorem Heeds.keyword?_none {word : Text} (hw : Heeds T word) (h : T c c')
    (hk : keyword? word c = none) : keyword? word c' = none := by
  rw [keyword?_eq_none] at hk ⊢
  exact hw.absent h hk

theorem word?_none_of_heeds {α : Type} {table : List (Text × α)}
    (ht : ∀ entry ∈ table, Heeds T entry.1) (h : T c c') (hn : word? table c = none) :
    word? table c' = none := by
  rw [word?_eq_none] at hn ⊢
  intro entry hm
  exact (ht entry hm).absent h (hn entry hm)

namespace Lockstep
variable (L : Lockstep f G T)
include L

theorem present (h : T c c') {token : Text} (ht : token ∈ lookAheads) (hp : token <+: c.rest) :
    token <+: c'.rest ∧ T (c.advance token.length) (c'.advance token.length) :=
  (L.heeds token ht).present h hp

theorem prefix_iff (h : T c c') {token : Text} (ht : token ∈ lookAheads) :
    token <+: c'.rest ↔ token <+: c.rest := by
  constructor
  · intro hp
    by_cases hn : token <+: c.rest
    · exact hn
    · exact absurd hp ((L.heeds token ht).absent h hn)
  · intro hp
    exact (L.present h ht hp).1

theorem startsWith (h : T c c') {token : Text} (ht : token ∈ lookAheads) :
    c'.startsWith token = c.startsWith token := by
  rw [Bool.eq_iff_iff,Cursor.startsWith_iff,Cursor.startsWith_iff]
  exact L.prefix_iff h ht

theorem head?_iff (h : T c c') {x : Char} (hx : [x] ∈ lookAheads) :
    c'.rest.head? = some x ↔ c.rest.head? = some x := by
  rw [head?_eq_iff_singleton,head?_eq_iff_singleton]
  exact L.prefix_iff h hx

theorem atStep (h : T c c') : atStep c' = atStep c := by
  rw [Bool.eq_iff_iff,atStep_iff,atStep_iff,L.prefix_iff h (by decide),L.prefix_iff h (by decide),
    L.prefix_iff h (by decide)]

theorem expect_ahead (h : T c c') {role : Role} {token : Text} (ht : token ∈ lookAheads)
    (he : Grammar.expect role token c = .ok d) :
    ∃ d', Grammar.expect role token c' = .ok d' ∧ T d d' := by
  obtain ⟨hp,rfl⟩ := expect_eq_ok.mp he
  obtain ⟨hp',h'⟩ := L.present h ht hp
  exact ⟨_,expect_eq_ok.mpr ⟨hp',rfl⟩,h'⟩

theorem keyword?_some (h : T c c') {word : Text} (hw : Heeds T word)
    (hk : keyword? word c = some d) : ∃ d', keyword? word c' = some d' ∧ T d d' := by
  obtain ⟨hp,rfl⟩ := keyword?_eq_some.mp hk
  obtain ⟨hp',h'⟩ := hw.present h hp
  exact ⟨_,keyword?_eq_some.mpr ⟨hp',rfl⟩,L.skipBlank h'⟩

theorem afterNot (h : T c c') :
    (afterNot c').1 = (afterNot c).1 ∧ T (afterNot c).2 (afterNot c').2 := by
  cases hn : keyword? "not".toList c with
  | none =>
    have hn' := (L.heeds _ (by decide)).keyword?_none h hn
    rw [Grammar.afterNot,Grammar.afterNot,hn,hn']
    exact ⟨rfl,h⟩
  | some d =>
    obtain ⟨d',hn',ht⟩ := L.keyword?_some h (L.heeds _ (by decide)) hn
    rw [Grammar.afterNot,Grammar.afterNot,hn,hn']
    exact ⟨rfl,ht⟩

theorem word?_some {α : Type} (h : T c c') {table : List (Text × α)} {x : α}
    (ht : ∀ entry ∈ table, Heeds T entry.1) (hx : word? table c = some (x,d)) :
    ∃ d', word? table c' = some (x,d') ∧ T d d' := by
  obtain ⟨before,word,after,rfl,hne,hk⟩ := word?_eq_some hx
  obtain ⟨d',hk',h'⟩ := L.keyword?_some h (ht (word,x) (by simp)) hk
  refine ⟨d',word?_append (fun entry hm => ?_) hk',h'⟩
  exact (ht entry (by simp [hm])).absent h (hne entry hm)

end Lockstep

/-- Where one round is read at either cursor, so are all of them, if they stop at both. -/
theorem follows_rounds (L : Lockstep f G T) {test : Cursor → Bool} {item : Reading α} {g : α → α}
    (hr : Repeats test item)
    (htest : ∀ ⦃c c'⦄, T c c' → test c = true → test c' = true)
    (hitem : ∀ ⦃c c' d x⦄, test c = true → item c = .ok (x,d) → T c c' → G d →
      ∃ d', item c' = .ok (g x,d') ∧ T d d')
    {xs : List α} (h : Rounds test item c xs d)
    (hstop : ∀ ⦃d'⦄, T d d' → test d = false → test d' = false) (ht : T c c') (hd : G d) :
    ∃ d', Rounds test item c' (xs.map g) d' ∧ T d d' := by
  induction h generalizing c' with
  | stop h => exact ⟨c',.stop (hstop ht h),ht⟩
  | next h hx hxs ih =>
    obtain ⟨c₁',hx',ht₁⟩ := hitem h hx ht (L.guard (hxs.reaches hr) hd)
    obtain ⟨d',hxs',ht'⟩ := ih hstop ht₁ hd
    exact ⟨d',.next (htest ht h) hx' hxs',ht'⟩

section Arguments
variable {inner : Reading Arg} (L : Lockstep f G T)
include L

theorem follows_step (hc : Follows G T (Arg.relocate f) inner) {x : Step} (hat : atStep c = true)
    (h : step inner c = .ok (x,d)) (ht : T c c') (hd : G d) :
    ∃ d', step inner c' = .ok (x.relocate f,d') ∧ T d d' := by
  rcases step_eq_ok.mp h with ⟨hhead,field,hn,rfl⟩ | ⟨hhead,arg,c₁,hi,he,rfl⟩
  · have hp : ['.'] <+: c.rest := head?_eq_iff_singleton.mp hhead
    obtain ⟨d',hn',ht'⟩ := L.name (L.present ht (by decide) hp).2 hn
    exact ⟨d',step_eq_ok.mpr (Or.inl ⟨(L.head?_iff ht (by decide)).mpr hhead,field,hn',rfl⟩),ht'⟩
  · have hp : ['['] <+: c.rest := by
      rcases atStep_iff.mp hat with ⟨hp,_⟩ | hp
      · exact absurd (head?_eq_iff_singleton.mpr hp) hhead
      · exact hp
    have hreach := (Cursor.reaches_skipBlank c₁).trans (reaches_of_expect he)
    have ht₁ := L.skipBlank (L.present ht (by decide) hp).2
    obtain ⟨c₁',hi',ht₂⟩ := hc hi ht₁ (L.guard hreach hd)
    obtain ⟨d',he',ht'⟩ := L.expect (L.skipBlank ht₂) (by decide) he hd
    have hhead' : c'.rest.head? ≠ some '.' := fun h => hhead ((L.head?_iff ht (by decide)).mp h)
    exact ⟨d',step_eq_ok.mpr (Or.inr ⟨hhead',_,c₁',hi',he',rfl⟩),ht'⟩

theorem follows_operand (hm : Moves inner) (hc : Follows G T (Arg.relocate f) inner) :
    Follows G T (Operand.relocate f) (operand inner) := by
  intro c c' d x h ht hd
  rcases operand_eq_ok.mp h with ⟨hq,t,hl,rfl⟩ | ⟨hq,hn,hx⟩
  · have hquote := L.atQuote ht (ne_nil_of_any_head hq)
    obtain ⟨d',hl',ht'⟩ := L.literal ht hl hd
    exact ⟨d',operand_eq_ok.mpr (Or.inl ⟨hquote.trans hq,t,hl',rfl⟩),ht'⟩
  · have hquote := L.atQuote ht (ne_nil_of_any_head hn)
    have hname := L.atName ht (ne_nil_of_any_head hn)
    obtain ⟨root,c₁,steps,hr,hs,rfl⟩ := (variablePath_eq_ok hm).mp hx
    obtain ⟨c₁',hr',ht₁⟩ := L.name ht hr
    obtain ⟨d',hs',ht'⟩ := follows_rounds L (repeats_step hm) (fun _ _ h => (L.atStep h).trans)
      (fun _ _ _ _ hat h ht hd => follows_step L hc hat h ht hd) hs (fun _ h => (L.atStep h).trans)
      ht₁ hd
    have hx' := (variablePath_eq_ok hm).mpr ⟨root,c₁',_,hr',hs',rfl⟩
    refine ⟨d',operand_eq_ok.mpr (Or.inr ⟨hquote.trans hq,hname.trans hn,hx'.trans ?_⟩),ht'⟩
    rw [Operand.relocate,stepsRelocate_eq_map]

theorem follows_spacedParam (hc : Follows G T (Arg.relocate f) inner) :
    Follows G T (Param.relocate f) (spacedParam inner) := by
  intro c c' d x h ht hd
  obtain ⟨c₁,hp,rfl⟩ := spacedParam_eq_ok.mp h
  obtain ⟨key,c₂,hn,hx⟩ := param_eq_ok.mp hp
  obtain ⟨c₂',hn',ht₁⟩ := L.name ht hn
  have ht₂ := L.skipBlank ht₁
  have heq := L.head?_iff ht₂ (x := '=') (by decide)
  rcases hx with ⟨hhead,value,hi,rfl⟩ | ⟨hhead,rfl,rfl⟩
  · have ht₃ := (L.present ht₂ (by decide) (head?_eq_iff_singleton.mp hhead)).2
    obtain ⟨c₁',hi',ht'⟩ := hc hi (L.skipBlank ht₃) (L.guard (Cursor.reaches_skipBlank c₁) hd)
    have hp' := param_eq_ok.mpr ⟨key,c₂',hn',Or.inl ⟨heq.mpr hhead,_,hi',rfl⟩⟩
    exact ⟨_,spacedParam_eq_ok.mpr ⟨c₁',hp',rfl⟩,L.skipBlank ht'⟩
  · have hnone : c₂'.skipBlank.rest.head? ≠ some '=' := fun h => hhead (heq.mp h)
    exact ⟨_,spacedParam_eq_ok.mpr ⟨_,param_eq_ok.mpr ⟨key,c₂',hn',Or.inr ⟨hnone,rfl,rfl⟩⟩,rfl⟩,L.skipBlank ht₂⟩

theorem follows_call (hm : Moves inner) (hc : Follows G T (Arg.relocate f) inner) :
    Follows G T (Call.relocate f) (call inner) := by
  intro c c' d x h ht hd
  obtain ⟨function,c₁,c₂,params,c₃,hn,ho,hp,he,rfl⟩ := (call_eq_ok hm).mp h
  have hoffset := L.offset ht (rest_ne_nil_of_name hn)
  obtain ⟨c₁',hn',ht₁⟩ := L.name ht hn
  obtain ⟨c₂',ho',ht₂⟩ := L.expect_ahead (L.skipBlank ht₁) (by decide) ho
  -- the bracket that has to follow the parameters stops them at both cursors
  have hstop : ∀ ⦃d'⦄, T c₃ d' → atName c₃ = false → atName d' = false := fun _ h =>
    (L.atName h (rest_ne_nil_of_expect (by decide) he)).trans
  obtain ⟨c₃',hp',ht₃⟩ := follows_rounds L (repeats_spacedParam hm)
    (fun _ _ h hat => (L.atName h (ne_nil_of_any_head hat)).trans hat)
    (fun _ _ _ _ _ h ht hd => follows_spacedParam L hc h ht hd) hp hstop (L.skipBlank ht₂)
    (L.guard (reaches_of_expect he) hd)
  obtain ⟨d',he',ht'⟩ := L.expect ht₃ (by decide) he hd
  refine ⟨d',(call_eq_ok hm).mpr ⟨function,c₁',c₂',_,c₃',hn',ho',hp',he',?_⟩,ht'⟩
  rw [Call.relocate,paramsRelocate_eq_map,hoffset]

theorem follows_pipedCall (hm : Moves inner) (hc : Follows G T (Arg.relocate f) inner) {x : Call}
    (hat : atArrow c = true) (h : pipedCall inner c = .ok (x,d)) (ht : T c c') (hd : G d) :
    ∃ d', pipedCall inner c' = .ok (x.relocate f,d') ∧ T d d' := by
  obtain ⟨c₁,hx,rfl⟩ := pipedCall_eq_ok.mp h
  have ht₁ := (L.present ht (by decide) (Cursor.startsWith_iff.mp hat)).2
  obtain ⟨c₁',hx',ht₂⟩ :=
    follows_call L hm hc hx (L.skipBlank ht₁) (L.guard (Cursor.reaches_skipBlank c₁) hd)
  exact ⟨_,pipedCall_eq_ok.mpr ⟨c₁',hx',rfl⟩,L.skipBlank ht₂⟩

theorem follows_argumentWith (hm : Moves inner) (hc : Follows G T (Arg.relocate f) inner) :
    Follows G T (Arg.relocate f) (argumentWith inner) := by
  intro c c' d x h ht hd
  obtain ⟨first,c₁,calls,ho,hr,rfl⟩ := (argumentWith_eq_ok hm).mp h
  have hreach := (Cursor.reaches_skipBlank c₁).trans (hr.reaches (repeats_pipedCall hm))
  obtain ⟨c₁',ho',ht₁⟩ := follows_operand L hm hc ho (L.skipBlank ht) (L.guard hreach hd)
  obtain ⟨d',hr',ht'⟩ := follows_rounds L (repeats_pipedCall hm)
    (fun _ _ h => (L.startsWith h (by decide)).trans)
    (fun _ _ _ _ hat h ht hd => follows_pipedCall L hm hc hat h ht hd) hr
    (fun _ h => (L.startsWith h (by decide)).trans) (L.skipBlank ht₁) hd
  refine ⟨d',(argumentWith_eq_ok hm).mpr ⟨_,c₁',_,ho',hr',?_⟩,ht'⟩
  rw [Arg.relocate,callsRelocate_eq_map]

theorem follows_nestedArgument (levels : Nat) :
    Follows G T (Arg.relocate f) (nestedArgument levels) := by
  induction levels with
  | zero =>
    intro c c' d x h
    cases h
  | succ levels ih =>
    rw [nestedArgument,argument_eq]
    exact follows_argumentWith L (moves_nestedArgument levels) ih

theorem follows_argument (levels : Nat) : Follows G T (Arg.relocate f) (argument levels) := by
  rw [argument_eq]
  exact follows_argumentWith L (moves_nestedArgument levels) (follows_nestedArgument L levels)

theorem follows_arrayItem (hc : Follows G T (Arg.relocate f) inner) :
    Follows G T (Arg.relocate f) (arrayItem inner) := by
  intro c c' d x h ht hd
  obtain ⟨c₁,hi,rfl⟩ := arrayItem_eq_ok.mp h
  obtain ⟨c₁',hi',ht₁⟩ := hc hi (L.skipBlank ht) (L.guard (Cursor.reaches_skipBlank c₁) hd)
  exact ⟨_,arrayItem_eq_ok.mpr ⟨c₁',hi',rfl⟩,L.skipBlank ht₁⟩

theorem follows_array (levels : Nat) : Follows G T (List.map (Arg.relocate f)) (array levels) := by
  intro c c' d xs h ht hd
  have hm := moves_nestedArgument levels
  have hc : Follows G T (Arg.relocate f) (arrayItem (nestedArgument levels)) :=
    follows_arrayItem L (follows_nestedArgument L levels)
  obtain ⟨c₁,item,c₂,items,c₃,ho,hi,hr,he,rfl⟩ := (arrayWith_eq_ok hm).mp h
  have hreach := reaches_of_expect he
  have hreach' := (hr.reaches (repeats_nextItem hm)).trans hreach
  obtain ⟨c₁',ho',ht₁⟩ := L.expect_ahead ht (by decide) ho
  obtain ⟨c₂',hi',ht₂⟩ := hc hi ht₁ (L.guard hreach' hd)
  obtain ⟨c₃',hr',ht₃⟩ := follows_rounds L (repeats_nextItem hm)
    (fun _ _ h => (L.startsWith h (by decide)).trans)
    (fun _ _ _ _ hat h ht hd =>
      hc h (L.present ht (by decide) (Cursor.startsWith_iff.mp hat)).2 hd) hr
    (fun _ h => (L.startsWith h (by decide)).trans) ht₂ (L.guard hreach hd)
  obtain ⟨d',he',ht'⟩ := L.expect ht₃ (by decide) he hd
  exact ⟨d',(arrayWith_eq_ok hm).mpr ⟨c₁',_,c₂',_,c₃',ho',hi',hr',he',rfl⟩,ht'⟩

end Arguments

section Conditions
variable {inner : Reading Condition} {levels : Nat} (L : Lockstep f G T)
include L

theorem follows_leafTail (left : Arg) (negated : Bool) {x : Condition}
    (h : leafTail (argument levels) (array levels) left negated c = .ok (x,d)) (ht : T c c')
    (hd : G d) :
    ∃ d', leafTail (argument levels) (array levels) (left.relocate f) negated c' =
      .ok (x.relocate f,d') ∧ T d d' := by
  have hwords : ∀ entry ∈ [("eq".toList,Comparison.eq),("like".toList,.like)], Heeds T entry.1 := by
    have hmem : ∀ entry ∈ [("eq".toList,Comparison.eq),("like".toList,.like)],
        entry.1 ∈ lookAheads := by decide
    exact fun entry hm => L.heeds _ (hmem entry hm)
  rcases leafTail_eq_ok.mp h with ⟨comparison,c₁,right,hk,hr,rfl⟩ | ⟨hn,c₁,items,hk,hi,rfl⟩ |
      ⟨hn,hk,hneg,rfl,rfl⟩
  · obtain ⟨c₁',hk',ht₁⟩ := L.word?_some ht hwords hk
    obtain ⟨d',hr',ht'⟩ := follows_argument L levels hr ht₁ hd
    exact ⟨d',leafTail_eq_ok.mpr (Or.inl ⟨comparison,c₁',_,hk',hr',rfl⟩),ht'⟩
  · obtain ⟨c₁',hk',ht₁⟩ := L.keyword?_some ht (L.heeds _ (by decide)) hk
    obtain ⟨d',hi',ht'⟩ := follows_array L levels hi ht₁ hd
    have hn' := word?_none_of_heeds hwords ht hn
    exact ⟨d',leafTail_eq_ok.mpr (Or.inr (Or.inl ⟨hn',c₁',_,hk',hi',rfl⟩)),ht'⟩
  · have hn' := word?_none_of_heeds hwords ht hn
    have hk' := (L.heeds _ (by decide)).keyword?_none ht hk
    exact ⟨c',leafTail_eq_ok.mpr (Or.inr (Or.inr ⟨hn',hk',hneg,rfl,rfl⟩)),ht⟩

theorem follows_leaf : Follows G T (Condition.relocate f) (leafWith (argument levels) (array levels)) := by
  intro c c' d x h ht hd
  obtain ⟨left,c₁,ha,hr⟩ := leafWith_eq_ok.mp h
  have hmove := moves_leafTail (consumes_argument levels).moves (consumes_array levels).moves _ _ hr
  have hreach := (Cursor.reaches_skipBlank c₁).trans ((reaches_afterNot _).trans hmove)
  obtain ⟨c₁',ha',ht₁⟩ := follows_argument L levels ha ht (L.guard hreach hd)
  obtain ⟨hneg,ht₂⟩ := L.afterNot (L.skipBlank ht₁)
  obtain ⟨d',hr',ht'⟩ := follows_leafTail L _ _ hr ht₂ hd
  rw [← hneg] at hr'
  exact ⟨d',leafWith_eq_ok.mpr ⟨_,c₁',ha',hr'⟩,ht'⟩

/-- A group only asks for what is read up to its closing bracket. -/
theorem follows_operandWith (levels : Nat)
    (hc : ∀ ⦃c c' c₁ d x⦄, inner c = .ok (x,c₁) → expect .symbol [')'] c₁.skipBlank = .ok d →
      T c c' → G d → ∃ c₁', inner c' = .ok (x.relocate f,c₁') ∧ T c₁ c₁') :
    Follows G T (Condition.relocate f) (operandWith inner (argument levels) (array levels)) := by
  intro c c' d x h ht hd
  have hopen := L.head?_iff ht (x := '(') (by decide)
  rcases operandWith_eq_ok.mp h with ⟨hhead,inside,c₁,hi,he,rfl⟩ | ⟨hhead,hat,hl⟩
  · have ht₁ := (L.present ht (by decide) (head?_eq_iff_singleton.mp hhead)).2
    obtain ⟨c₁',hi',ht₂⟩ := hc hi he (L.skipBlank ht₁) hd
    obtain ⟨d',he',ht'⟩ := L.expect (L.skipBlank ht₂) (by decide) he hd
    exact ⟨d',operandWith_eq_ok.mpr (Or.inl ⟨hopen.mpr hhead,_,c₁',hi',he',rfl⟩),ht'⟩
  · have hne : c.rest ≠ [] := by
      rcases (Bool.or_eq_true _ _).mp hat with hat | hat
      · exact ne_nil_of_any_head hat
      · exact ne_nil_of_any_head hat
    obtain ⟨d',hl',ht'⟩ := follows_leaf L hl ht hd
    refine ⟨d',operandWith_eq_ok.mpr (Or.inr ⟨fun h => hhead (hopen.mp h),?_,hl'⟩),ht'⟩
    rw [L.atQuote ht hne,L.atName ht hne,hat]

/-- Where the connectives stand at both cursors or at neither, so do whole conditions. -/
theorem follows_condition (hor : Heeds T "or".toList) (hand : Heeds T "and".toList) (levels : Nat) :
    Follows G T (Condition.relocate f) (condition levels) := by
  have hwords : ∀ entry ∈ [("or".toList,Connective.or),("and".toList,.and)], Heeds T entry.1 :=
    List.forall_mem_cons.mpr ⟨hor,List.forall_mem_singleton.mpr hand⟩
  induction levels with
  | zero =>
    intro c c' d x h
    cases h
  | succ levels ih =>
    intro c c' d x h ht hd
    obtain ⟨left,c₁,ho,hr⟩ := conditionWith_eq_ok.mp h
    have hreach := (Cursor.reaches_skipBlank c₁).trans
      (moves_conditionTail (moves_condition levels) left hr)
    have hoperand := follows_operandWith L levels fun c c' c₁ d x hi he ht hd =>
      ih hi ht (L.guard ((Cursor.reaches_skipBlank c₁).trans (reaches_of_expect he)) hd)
    obtain ⟨c₁',ho',ht₁⟩ := hoperand ho (L.skipBlank ht) (L.guard hreach hd)
    have ht₂ := L.skipBlank ht₁
    rcases conditionTail_eq_ok.mp hr with ⟨connective,c₂,right,hk,hi,rfl⟩ | ⟨hk,rfl,rfl⟩
    · obtain ⟨c₂',hk',ht₃⟩ := L.word?_some ht₂ hwords hk
      obtain ⟨d',hi',ht'⟩ := ih hi ht₃ hd
      exact ⟨d',conditionWith_eq_ok.mpr ⟨_,c₁',ho',
        conditionTail_eq_ok.mpr (Or.inl ⟨connective,c₂',_,hk',hi',rfl⟩)⟩,ht'⟩
    · have hk' := word?_none_of_heeds hwords ht₂ hk
      exact ⟨_,conditionWith_eq_ok.mpr ⟨_,c₁',ho',
        conditionTail_eq_ok.mpr (Or.inr ⟨hk',rfl,rfl⟩)⟩,ht₂⟩

end Conditions

end Stencil.Grammar

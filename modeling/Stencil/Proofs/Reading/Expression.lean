import Stencil.Grammar.Expression
import Stencil.Proofs.Reading.Lexeme

/-! # When arguments are read

For every production of arguments, what has to be read for it and in which order. The
lemmas are stated for any reading `inner` of the arguments one level deeper that never
moves back, and at the end for a number of levels.
-/
namespace Stencil.Grammar
variable {inner : Reading Arg} {c d : Cursor}

/-- What is read together with the blanks after it. -/
theorem thenBlank_eq_ok {r : Except Fault (α × Cursor)} {x : α} :
    (do let (y,c) ← r; return (y,c.skipBlank)) = Except.ok (x,d) ↔
      ∃ c₁, r = .ok (x,c₁) ∧ c₁.skipBlank = d := by
  simp only [bind_eq_ok,Prod.exists,pure,Except.pure,Except.ok.injEq,Prod.mk.injEq]
  constructor
  · rintro ⟨_,c₁,hr,rfl,hd⟩
    exact ⟨c₁,hr,hd⟩
  · rintro ⟨c₁,hr,hd⟩
    exact ⟨x,c₁,hr,rfl,hd⟩

theorem step_eq_ok {x : Step} : step inner c = .ok (x,d) ↔
    (c.rest.head? = some '.' ∧
      ∃ field, name .noName (c.advance 1) = .ok (field,d) ∧ .field field = x) ∨
    (c.rest.head? ≠ some '.' ∧ ∃ arg c₁, inner (c.advance 1).skipBlank = .ok (arg,c₁) ∧
      expect .symbol [']'] c₁.skipBlank = .ok d ∧ .index arg = x) := by
  unfold step
  split
  · next h => simp [h,bind_eq_ok,pure,Except.pure]
  · next h => simp [h,bind_eq_ok,pure,Except.pure]

theorem length_advance_lt {n : Nat} (hn : 0 < n) (hc : c.rest ≠ []) :
    (c.advance n).rest.length < c.rest.length := by
  have := List.length_pos_iff.mpr hc
  rw [Cursor.rest_advance,List.length_drop]
  omega

theorem moves_index (hm : Moves inner) {arg : Arg} {c₁ : Cursor}
    (hi : inner (c.advance 1).skipBlank = .ok (arg,c₁))
    (he : expect .symbol [']'] c₁.skipBlank = .ok d) : (c.advance 1).Reaches d :=
  (Cursor.reaches_skipBlank _).trans <| (hm hi).trans <|
    (Cursor.reaches_skipBlank _).trans (reaches_of_expect he)

theorem repeats_step (hm : Moves inner) : Repeats atStep (step inner) where
  stops c h := by simp [atStep,h]
  consumes c x d ht h := by
    have hc : c.rest ≠ [] := by
      intro hc
      simp [atStep,hc] at ht
    have hd : (c.advance 1).Reaches d := by
      rcases step_eq_ok.mp h with ⟨_,field,hn,_⟩ | ⟨_,arg,c₁,hi,he,_⟩
      · exact (consumes_name _ hn).1
      · exact moves_index hm hi he
    have hlt := length_advance_lt Nat.one_pos hc
    have hle := hd.length_le
    exact ⟨(Cursor.reaches_advance 1 c).trans hd,by omega⟩

theorem variablePath_eq_ok (hm : Moves inner) {x : Operand} :
    variablePath inner c = .ok (x,d) ↔ ∃ root c₁ steps, name .noName c = .ok (root,c₁) ∧
      Rounds atStep (step inner) c₁ steps d ∧ .variable root steps = x := by
  simp [variablePath,bind_eq_ok,pure,Except.pure,many_eq_ok (repeats_step hm)]

theorem operand_eq_ok {x : Operand} : operand inner c = .ok (x,d) ↔
    (atQuote c = true ∧ ∃ t, literal c = .ok (t,d) ∧ .literal t = x) ∨
    (atQuote c = false ∧ atName c = true ∧ variablePath inner c = .ok (x,d)) := by
  unfold operand
  split
  · next h => simp [h,bind_eq_ok,pure,Except.pure]
  · next h =>
    split
    · next hn => simp [h,hn]
    · next hn =>
      simp only [hn,Bool.false_eq_true,false_and,and_false,or_false]
      split <;> simp [h]

theorem consumes_variablePath (hm : Moves inner) : Consumes (variablePath inner) := by
  intro c x d h
  obtain ⟨root,c₁,steps,hn,hs,_⟩ := (variablePath_eq_ok hm).mp h
  have hd := hs.reaches (repeats_step hm)
  have hle := hd.length_le
  have hlt := (consumes_name _ hn).2
  exact ⟨(consumes_name _ hn).1.trans hd,by omega⟩

theorem consumes_operand (hm : Moves inner) : Consumes (operand inner) := by
  intro c x d h
  rcases operand_eq_ok.mp h with ⟨_,t,hl,_⟩ | ⟨_,_,hv⟩
  · exact consumes_literal hl
  · exact consumes_variablePath hm hv

theorem param_eq_ok {x : Param} : param inner c = .ok (x,d) ↔
    ∃ key c₁, name .noParam c = .ok (key,c₁) ∧
      ((c₁.skipBlank.rest.head? = some '=' ∧ ∃ value,
          inner (c₁.skipBlank.advance 1).skipBlank = .ok (value,d) ∧ .mk key (some value) = x) ∨
        (c₁.skipBlank.rest.head? ≠ some '=' ∧ .mk key none = x ∧ c₁.skipBlank = d)) := by
  simp only [param,bind_eq_ok,Prod.exists,pure,Except.pure]
  refine exists_congr fun key => exists_congr fun c₁ => and_congr_right fun _ => ?_
  split
  · next h => simp [h,bind_eq_ok]
  · next h => simp [h]

theorem spacedParam_eq_ok {x : Param} : spacedParam inner c = .ok (x,d) ↔
    ∃ c₁, param inner c = .ok (x,c₁) ∧ c₁.skipBlank = d := thenBlank_eq_ok

theorem consumes_param (hm : Moves inner) : Consumes (param inner) := by
  intro c x d h
  obtain ⟨key,c₁,hn,hv⟩ := param_eq_ok.mp h
  have hd : c₁.Reaches d := by
    rcases hv with ⟨_,value,hi,_⟩ | ⟨_,_,rfl⟩
    · exact (Cursor.reaches_skipBlank _).trans <| (Cursor.reaches_advance 1 _).trans <|
        (Cursor.reaches_skipBlank _).trans (hm hi)
    · exact Cursor.reaches_skipBlank c₁
  have hle := hd.length_le
  have hlt := (consumes_name _ hn).2
  exact ⟨(consumes_name _ hn).1.trans hd,by omega⟩

theorem consumes_spacedParam (hm : Moves inner) : Consumes (spacedParam inner) := by
  intro c x d h
  obtain ⟨c₁,hp,rfl⟩ := spacedParam_eq_ok.mp h
  have hend := Cursor.reaches_skipBlank c₁
  have hle := hend.length_le
  have hlt := (consumes_param hm hp).2
  exact ⟨(consumes_param hm hp).1.trans hend,by omega⟩

theorem repeats_spacedParam (hm : Moves inner) : Repeats atName (spacedParam inner) where
  stops c h := by simp [atName,h]
  consumes _ _ _ _ h := consumes_spacedParam hm h

theorem call_eq_ok (hm : Moves inner) {x : Call} : call inner c = .ok (x,d) ↔
    ∃ function c₁ c₂ params c₃, name .noFunction c = .ok (function,c₁) ∧
      expect .symbol ['('] c₁.skipBlank = .ok c₂ ∧
      Rounds atName (spacedParam inner) c₂.skipBlank params c₃ ∧
      expect .symbol [')'] c₃ = .ok d ∧ .mk function params c.offset = x := by
  simp [call,bind_eq_ok,pure,Except.pure,many_eq_ok (repeats_spacedParam hm)]

theorem consumes_call (hm : Moves inner) : Consumes (call inner) := by
  intro c x d h
  obtain ⟨function,c₁,c₂,params,c₃,hn,ho,hp,hc,_⟩ := (call_eq_ok hm).mp h
  have hd : c₁.Reaches d :=
    (Cursor.reaches_skipBlank _).trans <| (reaches_of_expect ho).trans <|
      (Cursor.reaches_skipBlank _).trans <| (hp.reaches (repeats_spacedParam hm)).trans
        (reaches_of_expect hc)
  have hle := hd.length_le
  have hlt := (consumes_name _ hn).2
  exact ⟨(consumes_name _ hn).1.trans hd,by omega⟩

theorem pipedCall_eq_ok {x : Call} : pipedCall inner c = .ok (x,d) ↔
    ∃ c₁, call inner (c.advance 2).skipBlank = .ok (x,c₁) ∧ c₁.skipBlank = d := thenBlank_eq_ok

theorem consumes_pipedCall (hm : Moves inner) : Consumes (pipedCall inner) := by
  intro c x d h
  obtain ⟨c₁,hc,rfl⟩ := pipedCall_eq_ok.mp h
  have hstart := (Cursor.reaches_advance 2 c).trans (Cursor.reaches_skipBlank _)
  have hend := Cursor.reaches_skipBlank c₁
  have hlt := (consumes_call hm hc).2
  have hle := hstart.length_le
  have hle' := hend.length_le
  exact ⟨hstart.trans ((consumes_call hm hc).1.trans hend),by omega⟩

theorem repeats_pipedCall (hm : Moves inner) : Repeats atArrow (pipedCall inner) where
  stops c h := by simp [atArrow,Cursor.startsWith,h]
  consumes _ _ _ _ h := consumes_pipedCall hm h

theorem argumentWith_eq_ok (hm : Moves inner) {x : Arg} : argumentWith inner c = .ok (x,d) ↔
    ∃ first c₁ calls, operand inner c.skipBlank = .ok (first,c₁) ∧
      Rounds atArrow (pipedCall inner) c₁.skipBlank calls d ∧ .mk first calls = x := by
  simp [argumentWith,bind_eq_ok,pure,Except.pure,many_eq_ok (repeats_pipedCall hm)]

theorem consumes_argumentWith (hm : Moves inner) : Consumes (argumentWith inner) := by
  intro c x d h
  obtain ⟨first,c₁,calls,ho,hc,_⟩ := (argumentWith_eq_ok hm).mp h
  have hd := (Cursor.reaches_skipBlank c₁).trans (hc.reaches (repeats_pipedCall hm))
  have hle := Cursor.length_skipBlank_le c
  have hle' := hd.length_le
  have hlt := (consumes_operand hm ho).2
  exact ⟨(Cursor.reaches_skipBlank c).trans ((consumes_operand hm ho).1.trans hd),by omega⟩

theorem arrayItem_eq_ok {x : Arg} : arrayItem inner c = .ok (x,d) ↔
    ∃ c₁, inner c.skipBlank = .ok (x,c₁) ∧ c₁.skipBlank = d := thenBlank_eq_ok

theorem moves_arrayItem (hm : Moves inner) : Moves (arrayItem inner) := by
  intro c x d h
  obtain ⟨c₁,hi,rfl⟩ := arrayItem_eq_ok.mp h
  exact (Cursor.reaches_skipBlank c).trans ((hm hi).trans (Cursor.reaches_skipBlank c₁))

theorem consumes_arrayItem (hi : Consumes inner) : Consumes (arrayItem inner) := by
  intro c x d h
  obtain ⟨c₁,hx,rfl⟩ := arrayItem_eq_ok.mp h
  have hle := Cursor.length_skipBlank_le c
  have hle' := Cursor.length_skipBlank_le c₁
  have hlt := (hi hx).2
  exact ⟨moves_arrayItem hi.moves h,by omega⟩

theorem repeats_nextItem (hm : Moves inner) : Repeats atComma (nextItem inner) where
  stops c h := by simp [atComma,Cursor.startsWith,h]
  consumes c x d ht h := by
    have hc : c.rest ≠ [] := by
      intro hc
      simp [atComma,Cursor.startsWith,hc] at ht
    have hd := moves_arrayItem hm h
    have hlt := length_advance_lt Nat.one_pos hc
    have hle := hd.length_le
    exact ⟨(Cursor.reaches_advance 1 c).trans hd,by omega⟩

theorem arrayWith_eq_ok (hm : Moves inner) {xs : List Arg} : arrayWith inner c = .ok (xs,d) ↔
    ∃ c₁ item c₂ items c₃, expect .symbol ['['] c = .ok c₁ ∧ arrayItem inner c₁ = .ok (item,c₂) ∧
      Rounds atComma (nextItem inner) c₂ items c₃ ∧ expect .symbol [']'] c₃ = .ok d ∧
      item :: items = xs := by
  simp [arrayWith,bind_eq_ok,pure,Except.pure,many_eq_ok (repeats_nextItem hm)]

theorem consumes_arrayWith (hm : Moves inner) : Consumes (arrayWith inner) := by
  intro c xs d h
  obtain ⟨c₁,item,c₂,items,c₃,ho,hi,hr,hc,_⟩ := (arrayWith_eq_ok hm).mp h
  have hd := (moves_arrayItem hm hi).trans <|
    (hr.reaches (repeats_nextItem hm)).trans (reaches_of_expect hc)
  have hle := hd.length_le
  have hlt := length_of_expect ho
  simp only [List.length_singleton] at hlt
  exact ⟨(reaches_of_expect ho).trans hd,by omega⟩

theorem consumes_nestedArgument (levels : Nat) : Consumes (nestedArgument levels) := by
  induction levels with
  | zero => exact consumes_tooDeep
  | succ levels ih =>
    rw [nestedArgument,argument_eq]
    exact consumes_argumentWith ih.moves

theorem moves_nestedArgument (levels : Nat) : Moves (nestedArgument levels) :=
  (consumes_nestedArgument levels).moves

theorem consumes_argument (levels : Nat) : Consumes (argument levels) :=
  consumes_nestedArgument (levels + 1)

theorem consumes_array (levels : Nat) : Consumes (array levels) :=
  consumes_arrayWith (moves_nestedArgument levels)

end Stencil.Grammar

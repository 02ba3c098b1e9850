import Stencil.Proofs.Reading.Block

/-! # When whole texts are read

A template has to be read up to its end, a condition up to blanks at its end.
-/
namespace Stencil
open Grammar
variable {levels : Nat} {source : Text}

theorem Cursor.atEnd_iff {c : Cursor} : c.atEnd = true ↔ c.rest = [] := List.isEmpty_iff

theorem readBlocks_eq_ok {xs : List Block} : readBlocks levels source = .ok xs ↔
    ∃ d, blocks levels (.start source) = .ok (xs,d) ∧ d.rest = [] := by
  simp only [readBlocks,bind_eq_ok,Prod.exists]
  constructor
  · rintro ⟨ys,d,hys,h⟩
    split at h
    · next hend =>
      obtain rfl := Except.ok.inj h
      exact ⟨d,hys,Cursor.atEnd_iff.mp hend⟩
    · cases h
  · rintro ⟨d,hxs,hend⟩
    refine ⟨xs,d,hxs,?_⟩
    rw [if_pos (Cursor.atEnd_iff.mpr hend)]
    rfl

theorem checkRest_eq_ok {c : Cursor} : checkRest c = .ok () ↔ c.skipBlank.rest = [] := by
  simp only [checkRest]
  split
  · next hend => simp [Cursor.atEnd_iff.mp hend,pure,Except.pure]
  · next hend =>
    have hne : c.skipBlank.rest ≠ [] := fun h => hend (Cursor.atEnd_iff.mpr h)
    simp [hne,throw,throwThe,MonadExceptOf.throw]

theorem readCondition_eq_ok {x : Condition} : readCondition levels source = .ok x ↔
    ∃ d, condition levels (.start source) = .ok (x,d) ∧ d.skipBlank.rest = [] := by
  simp only [readCondition,readLeadingCondition,bind_eq_ok,Prod.exists,pure,Except.pure,Except.ok.injEq]
  constructor
  · rintro ⟨_,d,hx,⟨⟩,hend,rfl⟩
    exact ⟨d,hx,checkRest_eq_ok.mp hend⟩
  · rintro ⟨d,hx,hend⟩
    exact ⟨x,d,hx,(),checkRest_eq_ok.mpr hend,rfl⟩

end Stencil

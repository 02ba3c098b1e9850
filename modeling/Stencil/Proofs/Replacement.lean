import Stencil.Evaluation.Method
import Stencil.Proofs.Text.Search

/-! # Replacing the first occurrence

The method `replace` puts its new text in the place of one occurrence of the old one, the leftmost.
What stands before it and behind it stays as it is, also where it overlaps with the old text, and
where the new text makes up another occurrence with it.
-/
namespace Stencil

namespace Text
variable {pattern new t before after before' after' : Text}

/-- The text is `before`, an occurrence of the pattern and `after`, and no occurrence of the pattern
begins further left. -/
structure LeftmostCut (pattern t before after : Text) : Prop where
  whole : t = before ++ pattern ++ after
  leftmost : ∀ before' after', t = before' ++ pattern ++ after' → before.length ≤ before'.length

theorem LeftmostCut.unique (h : LeftmostCut pattern t before after)
    (h' : LeftmostCut pattern t before' after') : before = before' ∧ after = after' := by
  have hlength : before.length = before'.length :=
    Nat.le_antisymm (h.leftmost _ _ h'.whole) (h'.leftmost _ _ h.whole)
  have heq := h.whole.symm.trans h'.whole
  rw [List.append_assoc,List.append_assoc] at heq
  obtain ⟨hbefore,hrest⟩ := List.append_inj heq hlength
  exact ⟨hbefore,List.append_cancel_left hrest⟩

theorem breakAt?_eq_some_iff :
    breakAt? pattern t = some (before,after) ↔ LeftmostCut pattern t before after := by
  have hcut : ∀ u w, breakAt? pattern t = some (u,w) → LeftmostCut pattern t u w := by
    intro u w h
    refine ⟨by rw [eq_append_of_breakAt? h,List.append_assoc],fun before' after' hwhole => ?_⟩
    rw [List.append_assoc] at hwhole
    obtain ⟨u',w',h',hle⟩ := exists_breakAt? hwhole
    obtain ⟨rfl,-⟩ := Prod.mk.inj (Option.some.inj (h.symm.trans h'))
    exact hle
  refine ⟨hcut before after,fun h => ?_⟩
  have hwhole := h.whole
  rw [List.append_assoc] at hwhole
  obtain ⟨u,w,hbreak,-⟩ := exists_breakAt? hwhole
  obtain ⟨rfl,rfl⟩ := (hcut u w hbreak).unique h
  exact hbreak

theorem breakAt?_eq_none_iff : breakAt? pattern t = none ↔ ¬pattern <:+: t := by
  constructor
  · rintro h ⟨before,after,hwhole⟩
    rw [List.append_assoc] at hwhole
    obtain ⟨u,w,hbreak,-⟩ := exists_breakAt? hwhole.symm
    rw [h] at hbreak
    cases hbreak
  · intro h
    refine Option.eq_none_iff_forall_ne_some.mpr fun cut hbreak => h ⟨cut.1,cut.2,?_⟩
    exact (breakAt?_eq_some_iff.mp hbreak).whole.symm

theorem exists_leftmostCut (h : pattern <:+: t) : ∃ before after, LeftmostCut pattern t before after := by
  cases hbreak : breakAt? pattern t with
  | none => exact absurd h (breakAt?_eq_none_iff.mp hbreak)
  | some cut => exact ⟨cut.1,cut.2,breakAt?_eq_some_iff.mp hbreak⟩

theorem leftmostCut_nil (t : Text) : LeftmostCut [] t [] t where
  whole := rfl
  leftmost _ _ _ := Nat.zero_le _

theorem replaceFirst_of_cut (h : LeftmostCut pattern t before after) :
    replaceFirst pattern new t = before ++ new ++ after := by
  rw [replaceFirst,breakAt?_eq_some_iff.mpr h]

theorem replaceFirst_of_not_infix (h : ¬pattern <:+: t) : replaceFirst pattern new t = t := by
  rw [replaceFirst,breakAt?_eq_none_iff.mpr h]

end Text

/-- Whatever the parameters are, `replace` gives a text for every value that has one, and fails for
any other. What it gives is the text of the value if `from` does not occur in that, and else the text
with `to` in the place of the leftmost occurrence of `from`, of which there is just one. Without
`from`, or with an empty one, `to` is put in front. -/
theorem replace_leftmost (v : Value) (params : Params) (offset : Nat) :
    let pattern := (params.get? "from".toList).getD []
    let new := (params.get? "to".toList).getD []
    ∃ replace, Registry.standard "replace".toList offset = some replace ∧
      (∀ cause, v.display = .error cause → replace v params = .error (.unwritable cause)) ∧
      ∀ t, v.display = .ok t → ∃ result, replace v params = .ok (.text result) ∧
        (¬pattern <:+: t → result = t) ∧
        (pattern <:+: t → ∃ before after, Text.LeftmostCut pattern t before after ∧
          result = before ++ new ++ after ∧
          ∀ before' after', Text.LeftmostCut pattern t before' after' →
            before = before' ∧ after = after') ∧
        ((∀ s ∈ params.get? "from".toList, s = []) → result = new ++ t) := by
  intro pattern new
  refine ⟨fun v params => Method.ofWriting (v.display.map (Method.replaced params)),rfl,
    fun cause hcause => ?_,fun t ht => ⟨Method.replaced params t,?_,
      Text.replaceFirst_of_not_infix,fun hoccurs => ?_,fun hempty => ?_⟩⟩
  · simp only [hcause]
    rfl
  · simp only [ht]
    rfl
  · obtain ⟨before,after,hcut⟩ := Text.exists_leftmostCut hoccurs
    exact ⟨before,after,hcut,Text.replaceFirst_of_cut hcut,fun _ _ => hcut.unique⟩
  · have hpattern : pattern = [] := by
      change (params.get? "from".toList).getD [] = []
      cases hfrom : params.get? "from".toList with
      | none => rfl
      | some s => exact hempty s hfrom
    have hcut : Text.LeftmostCut pattern t [] t := hpattern ▸ Text.leftmostCut_nil _
    exact Text.replaceFirst_of_cut hcut

/-- The occurrences in `aaa` overlap, and there is one again in what comes out. -/
example : Method.replaced [("from".toList,"aa".toList),("to".toList,"aab".toList)] "a,aaa".toList =
    "a,aaba".toList := by
  decide

end Stencil

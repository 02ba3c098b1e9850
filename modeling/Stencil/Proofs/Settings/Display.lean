import Stencil.Proofs.Settings.Normal

/-! # What normal forms print as

A scalar becomes the text that it prints as, and the items of a list are printed one by one, those
of a tuple as well. So what is made of these alone prints as before and holds as before. A mapping
does not: as JSON a number and the text for it look different.
-/
namespace Stencil.Value

/-- A scalar, or a list or tuple of flat values. -/
inductive IsFlat : Value → Prop where
  | scalar {v : Value} (h : v.isScalar = true) : IsFlat v
  | list {items : List Value} (h : ∀ v ∈ items, IsFlat v) : IsFlat (list items)
  | tuple {items : List Value} (h : ∀ v ∈ items, IsFlat v) : IsFlat (tuple items)

variable {path : List Text} {v w : Value} {items normal : List Value}

theorem mem_itemParts {index : Nat} {part : Part} (h : part ∈ itemParts path index items) :
    ∃ v ∈ items, ∃ path, part ∈ parts path v := by
  induction items generalizing index with
  | nil => cases h
  | cons item items ih =>
    obtain hitem | hitems := List.mem_append.mp h
    · exact ⟨item,List.mem_cons_self,_,hitem⟩
    · obtain ⟨v,hv,hpart⟩ := ih hitems
      exact ⟨v,List.mem_cons_of_mem _ hv,hpart⟩

theorem IsFlat.isUnsupported {part : Part} (h : v.IsFlat) (hpart : part ∈ parts path v) :
    part.isUnsupported = false := by
  induction h generalizing path with
  | @scalar v h =>
    cases v with
    | list | tuple | mapping | foreign => cases h
    | _ =>
      obtain rfl := List.mem_singleton.mp hpart
      rfl
  | list _ ih | tuple _ ih =>
    obtain ⟨v,hv,_,hpart⟩ := mem_itemParts hpart
    exact ih v hv hpart

/-- The one thing that keeps a flat value from having a normal form is a number in it. -/
theorem IsFlat.firstProblem? (h : v.IsFlat) (hv : v.isWritable = true) (path : List Text) :
    firstProblem? path v = none := by
  have hfind : (parts path v).find? Part.isUnsupported = none :=
    List.find?_eq_none.mpr fun part hpart => by simp [h.isUnsupported hpart]
  rw [firstProblem?_of_isWritable hv,hfind,Option.map_none]

theorem displayItems_of_forall₂ (h : List.Forall₂ NormalOf items normal)
    (hdisplay : ∀ v ∈ items, ∀ w, NormalOf v w → w.display = v.display) :
    displayItems normal = displayItems items := by
  induction h with
  | nil => rfl
  | cons hw _ ih =>
    obtain ⟨hv,hitems⟩ := List.forall_mem_cons.mp hdisplay
    rw [displayItems,displayItems,hv _ hw,ih hitems]

theorem IsFlat.display_of_normalOf (h : v.IsFlat) (hw : NormalOf v w) : w.display = v.display := by
  induction h generalizing w with
  | scalar h =>
    cases hw with
    | scalar _ ht => exact ht.symm
    | list | tuple | mapping => cases h
  | list _ ih =>
    cases hw with
    | scalar h => cases h
    | list hitems => rw [display,display,displayItems_of_forall₂ hitems fun v hv _ => ih v hv]
  | tuple _ ih =>
    cases hw with
    | scalar h => cases h
    | tuple hitems => rw [display,display,displayItems_of_forall₂ hitems fun v hv _ => ih v hv]

theorem areWritable_eq_all (items : List Value) : areWritable items = items.all isWritable := by
  induction items with
  | nil => rfl
  | cons item items ih => rw [areWritable,ih,List.all_cons]

/-- Only a number can keep a flat value from having a text. -/
theorem IsFlat.isOk_display (h : v.IsFlat) : v.display.isOk = v.isWritable := by
  induction h with
  | @scalar v h =>
    cases v with
    | list | tuple | mapping | foreign => cases h
    | int i => exact isOk_numeralText i
    | _ => rfl
  | list _ ih | tuple _ ih =>
    rw [display,isOk_map,isOk_displayItems,isWritable,areWritable_eq_all,Bool.eq_iff_iff,
      List.all_eq_true,List.all_eq_true]
    exact forall₂_congr fun v hv => by rw [ih v hv]

/-- A flat value and its normal form print alike and hold alike: neither has a text if a number in
the value is too long, and else there is a normal form, and it has the same text. -/
theorem display_normalize (h : v.IsFlat) (path : List Text) :
    (normalize path v).toOption.bind (·.display.toOption) = v.display.toOption ∧
    (normalize path v).toOption.bind (·.isTruthy.toOption) = v.isTruthy.toOption ∧
    (v.isWritable = true → ∃ w t, normalize path v = .ok w ∧ w.display = .ok t ∧
      v.display = .ok t ∧ w.isTruthy = v.isTruthy) := by
  cases hv : v.isWritable with
  | false =>
    have hnone : (normalize path v).toOption = none := by
      cases hresult : normalize path v with
      | error => rfl
      | ok w => cases hv.symm.trans (isWritable_of_normalize_ok hresult)
    have hdisplay : v.display.isOk = false := h.isOk_display.trans hv
    have htruthy : v.isTruthy.isOk = false := (isOk_map _ _).trans hdisplay
    simp [hnone,toOption_of_not_isOk hdisplay,toOption_of_not_isOk htruthy]
  | true =>
    obtain ⟨t,ht⟩ := isOk_iff.mp (h.isOk_display.trans hv)
    have hyields := normalize_yields path v
    rw [h.firstProblem? hv path] at hyields
    generalize normalize path v = result at hyields
    cases hyields with
    | @done w hw =>
      have hdisplay := h.display_of_normalOf hw
      have htruthy : w.isTruthy = v.isTruthy := by rw [isTruthy,isTruthy,hdisplay]
      exact ⟨congrArg Except.toOption hdisplay,congrArg Except.toOption htruthy,
        fun _ => ⟨w,t,rfl,hdisplay.trans ht,ht,htruthy⟩⟩

/-- A truth value in a tuple is written as a word and not as a number, and null between commas
stays nothing. -/
theorem display_normalize_of_nested :
    let v := list [null,tuple [bool true,int (-7)],list [],text ['x']]
    v.IsFlat ∧ ∃ w, normalize [] v = .ok w ∧ w.display = .ok ",true,-7,,x".toList ∧
      w.isTruthy = .ok true := by
  intro v
  have hflat : v.IsFlat := by
    have hpair : IsFlat (tuple [bool true,int (-7)]) := by
      refine .tuple ?_
      simp only [List.forall_mem_cons]
      exact ⟨.scalar rfl,.scalar rfl,nofun⟩
    refine .list ?_
    simp only [List.forall_mem_cons]
    exact ⟨.scalar rfl,hpair,.list nofun,.scalar rfl,nofun⟩
  obtain ⟨w,t,hw,hdisplay,ht,htruthy⟩ := (display_normalize hflat []).2.2 (by decide +kernel)
  exact ⟨hflat,w,hw,hdisplay.trans (ht.symm.trans (by decide +kernel)),
    htruthy.trans (by decide +kernel)⟩

/-- In a mapping the number was not quoted, and its normal form is. -/
example : (normalize [] (mapping [(text ['n'],int 1)])).toOption.map display =
    some (.ok "\x7b\"n\":\"1\"\x7d".toList) := by decide +kernel

end Stencil.Value

import Mathlib.Tactic.SplitIfs
import Stencil.Proofs.Value.Writing

/-! # Which values hold

A value holds as a condition if it prints as something. Which values print as nothing can be told
from their shape: a list prints as nothing if it has no items or a single one that does, since
between two items there is at least the comma. Only of a value without a text is there nothing to
tell.
-/
namespace Stencil

theorem Text.join_eq_nil_iff {separator : Text} (h : separator ≠ []) (parts : List Text) :
    join separator parts = [] ↔ parts = [] ∨ parts = [[]] := by
  rcases parts with _ | ⟨part,_ | ⟨next,parts⟩⟩
  · simp [join]
  · simp [join]
  · simp [join,h]

theorem intText_ne_nil (i : Int) : intText i ≠ [] := by
  cases i with
  | ofNat n => exact Nat.toDigits_ne_nil
  | negSucc n => simp [intText]

theorem DecimalLayout.write_ne_nil (layout : DecimalLayout) (d : DecimalForm) :
    layout.write d ≠ [] := by
  simp only [write]
  split_ifs <;> simp

theorem Double.text_ne_nil (x : Double) : x.text ≠ [] := by
  fun_cases textWith ['i','n','f'] ['n','a','n'] x <;>
    simp [text,textWith,DecimalLayout.write_ne_nil]

namespace Value

theorem boolText_ne_nil (b : Bool) : boolText b ≠ [] := by
  cases b <;> simp [boolText]

/-- Null, the empty text, and a list or tuple with no items or with a single one that is hollow. -/
inductive IsHollow : Value → Prop where
  | null : IsHollow null
  | text : IsHollow (text [])
  | emptyList : IsHollow (list [])
  | emptyTuple : IsHollow (tuple [])
  | list {v : Value} (h : IsHollow v) : IsHollow (list [v])
  | tuple {v : Value} (h : IsHollow v) : IsHollow (tuple [v])

theorem displayItems_join_eq_nil_iff (items : List Value) :
    (displayItems items).map (Text.join [',']) = .ok [] ↔
      items = [] ∨ ∃ v, items = [v] ∧ v.display = .ok [] := by
  simp only [map_eq_ok,displayItems_eq_ok_iff,Text.join_eq_nil_iff (List.cons_ne_nil ',' [])]
  constructor
  · rintro ⟨_,htexts,rfl | rfl⟩
    · exact Or.inl (List.forall₂_nil_right_iff.mp htexts)
    · obtain ⟨v,rest,hv,hrest,rfl⟩ := List.forall₂_cons_right_iff.mp htexts
      obtain rfl := List.forall₂_nil_right_iff.mp hrest
      exact Or.inr ⟨v,rfl,hv⟩
  · rintro (rfl | ⟨v,rfl,hv⟩)
    · exact ⟨[],.nil,Or.inl rfl⟩
    · exact ⟨[[]],.cons hv .nil,Or.inr rfl⟩

/-- The hollow values are those that print as nothing. -/
theorem display_eq_nil_iff (v : Value) : v.display = .ok [] ↔ v.IsHollow := by
  constructor
  · intro h
    induction v with
    | null => exact .null
    | text t =>
      obtain rfl : t = [] := Except.ok.inj h
      exact .text
    | bool b => exact absurd (Except.ok.inj h) (boolText_ne_nil b)
    | int i => exact absurd (numeralText_eq_ok.mp h).2 (intText_ne_nil i)
    | float x => exact absurd (Except.ok.inj h) x.text_ne_nil
    | list items ih =>
      obtain rfl | ⟨v,rfl,hv⟩ := (displayItems_join_eq_nil_iff items).mp h
      · exact .emptyList
      · exact .list (ih v List.mem_cons_self hv)
    | tuple items ih =>
      obtain rfl | ⟨v,rfl,hv⟩ := (displayItems_join_eq_nil_iff items).mp h
      · exact .emptyTuple
      · exact .tuple (ih v List.mem_cons_self hv)
    | mapping entries =>
      obtain ⟨members,-,hmembers⟩ := map_eq_ok.mp h
      cases hmembers
    | foreign object => exact absurd (Except.ok.inj h) object.text_ne_nil
  · intro h
    induction h with
    | null | text | emptyList | emptyTuple => rfl
    | list _ ih => exact (displayItems_join_eq_nil_iff _).mpr (Or.inr ⟨_,rfl,ih⟩)
    | tuple _ ih => exact (displayItems_join_eq_nil_iff _).mpr (Or.inr ⟨_,rfl,ih⟩)

theorem isTruthy_eq_false_iff (v : Value) : v.isTruthy = .ok false ↔ v.display = .ok [] := by
  rw [isTruthy,map_eq_ok]
  constructor
  · rintro ⟨t,ht,hfalse⟩
    rw [ht,bne_eq_false_iff_eq.mp hfalse]
  · exact fun h => ⟨[],h,rfl⟩

theorem isTruthy_eq_true_iff (v : Value) :
    v.isTruthy = .ok true ↔ v.display.isOk = true ∧ v.display ≠ .ok [] := by
  rw [isTruthy,map_eq_ok,isOk_iff]
  constructor
  · rintro ⟨t,ht,htrue⟩
    refine ⟨⟨t,ht⟩,fun hnil => ?_⟩
    rw [Except.ok.inj (ht.symm.trans hnil)] at htrue
    cases htrue
  · rintro ⟨⟨t,ht⟩,hne⟩
    exact ⟨t,ht,bne_iff_ne.mpr fun hnil => hne (hnil ▸ ht)⟩

/-- A value does not hold just if it is null, the empty text, or a list or tuple without items or
with a single item that does not hold; any other value holds if it has a text, and with no text it
can not be told. So every mapping, every number and truth value, also zero and false, and every list
and tuple of two items or more holds, unless it has no text. -/
theorem isTruthy_by_shape (v : Value) :
    (v.isTruthy = .ok false ↔ v.IsHollow) ∧
    (v.isTruthy = .ok true ↔ ¬v.IsHollow ∧ ¬v.Textless) ∧
    ((∃ cause, v.isTruthy = .error cause) ↔ v.Textless) ∧
    (∀ entries, v = mapping entries → ¬v.Textless → v.isTruthy = .ok true) ∧
    (∀ n, v.toNumber? = some n → ¬v.Textless → v.isTruthy = .ok true) ∧
    ∀ items, v = list items ∨ v = tuple items → 2 ≤ items.length → ¬v.Textless →
      v.isTruthy = .ok true := by
  have htrue : v.isTruthy = .ok true ↔ ¬v.IsHollow ∧ ¬v.Textless := by
    rw [isTruthy_eq_true_iff,isOk_display_iff,ne_eq,display_eq_nil_iff,and_comm]
  refine ⟨(isTruthy_eq_false_iff v).trans (display_eq_nil_iff v),htrue,?_,?_,?_,?_⟩
  · have hok : v.isTruthy.isOk = true ↔ ¬v.Textless := by
      rw [isTruthy,isOk_map,isOk_display_iff]
    rw [← not_isOk_iff,hok,not_not]
  · rintro entries rfl htext
    exact htrue.mpr ⟨nofun,htext⟩
  · intro n hn htext
    refine htrue.mpr ⟨?_,htext⟩
    rintro ⟨⟩ <;> cases hn
  · rintro items (rfl | rfl) hlength htext <;> refine htrue.mpr ⟨?_,htext⟩
    · rintro ⟨⟩ <;> simp at hlength
    · rintro ⟨⟩ <;> simp at hlength

/-- A list of hollow values holds, where a comma stands between them. -/
theorem isTruthy_by_shape_of_pair :
    2 ≤ [text [],null].length ∧ ¬(list [text [],null]).Textless ∧
      (list [text [],null]).isTruthy = .ok true ∧
      (list [tuple [text []]]).isTruthy = .ok false := by
  have htext : ¬(list [text [],null]).Textless := (isOk_display_iff _).mp rfl
  obtain ⟨-,-,-,-,-,hlist⟩ := isTruthy_by_shape (list [text [],null])
  exact ⟨by decide,htext,hlist _ (Or.inl rfl) (by decide) htext,
    (isTruthy_by_shape _).1.mpr (.list (.tuple .text))⟩

/-- A number of 4301 digits and a mapping with a tuple as its key are not hollow, and yet do not
hold: they have no text. -/
theorem isTruthy_textless :
    let number := int (Nat.pow 10 numeralLimit)
    let named := mapping [(tuple [text ['1'],text ['2']],text ['x'])]
    ¬number.IsHollow ∧ number.isTruthy = .error .longNumeral ∧
      ¬named.IsHollow ∧ named.isTruthy = .error .foreignKey := by
  refine ⟨nofun,?_,nofun,rfl⟩
  rw [isTruthy,display,numeralText,isShort_overlong]
  rfl

end Value

end Stencil

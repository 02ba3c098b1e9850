import Mathlib.Data.List.Forall2
import Stencil.Proofs.Except
import Stencil.Value.Display

/-! # Which values have a text

A number may have more digits than are written, and a key may be of a kind that JSON has no name
for. A value with one of these in it, however deep, has no text, and every other value has one.
-/
namespace Stencil.Value

/-- The keys without a name in JSON. -/
inductive Nameless : Value → Prop where
  | int {i : Int} (h : isShort i = false) : Nameless (int i)
  | list (items : List Value) : Nameless (list items)
  | tuple (items : List Value) : Nameless (tuple items)
  | mapping (entries : List (Value × Value)) : Nameless (mapping entries)
  | foreign (object : ForeignObject) : Nameless (foreign object)

inductive Textless : Value → Prop where
  | int {i : Int} (h : isShort i = false) : Textless (int i)
  | list {v : Value} {items : List Value} (hmem : v ∈ items) (h : Textless v) : Textless (list items)
  | tuple {v : Value} {items : List Value} (hmem : v ∈ items) (h : Textless v) : Textless (tuple items)
  | key {entry : Value × Value} {entries : List (Value × Value)} (hmem : entry ∈ entries)
    (h : Nameless entry.1) : Textless (mapping entries)
  | value {entry : Value × Value} {entries : List (Value × Value)} (hmem : entry ∈ entries)
    (h : Textless entry.2) : Textless (mapping entries)

/-- The shortest number that is too long. -/
theorem isShort_overlong : isShort (Nat.pow 10 numeralLimit) = false := by
  -- The number stays a variable in this, so that nothing evaluates the power.
  have hshort : ∀ n : Nat, isShort n = decide (n < Nat.pow 10 numeralLimit) := fun _ => rfl
  rw [hshort]
  exact decide_eq_false (Nat.lt_irrefl _)

theorem numeralText_eq_ok {i : Int} {t : Text} :
    numeralText i = .ok t ↔ isShort i = true ∧ intText i = t := by
  unfold numeralText
  cases isShort i <;> simp

theorem isOk_numeralText (i : Int) : (numeralText i).isOk = isShort i := by
  unfold numeralText
  cases isShort i <;> rfl

theorem isOk_jsonKey_iff (key : Value) : key.jsonKey.isOk = true ↔ ¬key.Nameless := by
  cases key with
  | int i =>
    have hiff : (int i).Nameless ↔ isShort i = false := ⟨fun | .int h => h,.int⟩
    rw [hiff,Bool.not_eq_false]
    exact Bool.eq_iff_iff.mp (isOk_numeralText i)
  | list items => exact iff_of_false Bool.false_ne_true (not_not_intro (.list items))
  | tuple items => exact iff_of_false Bool.false_ne_true (not_not_intro (.tuple items))
  | mapping entries => exact iff_of_false Bool.false_ne_true (not_not_intro (.mapping entries))
  | foreign object => exact iff_of_false Bool.false_ne_true (not_not_intro (.foreign object))
  | _ => exact iff_of_true rfl nofun

theorem isOk_jsonItems (items : List Value) :
    (jsonItems items).isOk = items.all fun item => item.json.isOk := by
  induction items with
  | nil => rfl
  | cons item items ih =>
    rw [List.all_cons,← ih,jsonItems]
    cases item.json <;> cases jsonItems items <;> rfl

theorem isOk_jsonEntries (entries : List (Value × Value)) : (jsonEntries entries).isOk =
    entries.all fun entry => entry.1.jsonKey.isOk && entry.2.json.isOk := by
  induction entries with
  | nil => rfl
  | cons entry entries ih =>
    rw [List.all_cons,← ih,jsonEntries]
    cases entry.1.jsonKey <;> cases entry.2.json <;> cases jsonEntries entries <;> rfl

theorem isOk_displayItems (items : List Value) :
    (displayItems items).isOk = items.all fun item => item.display.isOk := by
  induction items with
  | nil => rfl
  | cons item items ih =>
    rw [List.all_cons,← ih,displayItems]
    cases item.display <;> cases displayItems items <;> rfl

section
variable {items : List Value} {entries : List (Value × Value)}

theorem textless_int_iff {i : Int} : (int i).Textless ↔ isShort i = false := ⟨fun | .int h => h,.int⟩

theorem textless_list_iff : (list items).Textless ↔ ∃ v ∈ items, v.Textless :=
  ⟨fun | .list hmem h => ⟨_,hmem,h⟩,fun ⟨_,hmem,h⟩ => .list hmem h⟩

theorem textless_tuple_iff : (tuple items).Textless ↔ ∃ v ∈ items, v.Textless :=
  ⟨fun | .tuple hmem h => ⟨_,hmem,h⟩,fun ⟨_,hmem,h⟩ => .tuple hmem h⟩

theorem textless_mapping_iff : (mapping entries).Textless ↔
    ∃ entry ∈ entries, entry.1.Nameless ∨ entry.2.Textless := by
  constructor
  · rintro (_ | _ | _ | ⟨hmem,h⟩ | ⟨hmem,h⟩)
    · exact ⟨_,hmem,Or.inl h⟩
    · exact ⟨_,hmem,Or.inr h⟩
  · rintro ⟨entry,hmem,h | h⟩
    · exact .key hmem h
    · exact .value hmem h

end

theorem isOk_json_iff (v : Value) : v.json.isOk = true ↔ ¬v.Textless := by
  induction v with
  | int i =>
    rw [textless_int_iff,Bool.not_eq_false]
    exact Bool.eq_iff_iff.mp (isOk_numeralText i)
  | list items ih | tuple items ih =>
    simp only [json,isOk_map,isOk_jsonItems,List.all_eq_true,textless_list_iff,textless_tuple_iff,
      not_exists,not_and]
    exact forall₂_congr ih
  | mapping entries ih =>
    simp only [json,isOk_map,isOk_jsonEntries,List.all_eq_true,Bool.and_eq_true,
      textless_mapping_iff,not_exists,not_and,not_or]
    exact forall₂_congr fun entry hmem => and_congr (isOk_jsonKey_iff entry.1) (ih entry hmem)
  | _ => exact iff_of_true rfl nofun

theorem isOk_display_iff (v : Value) : v.display.isOk = true ↔ ¬v.Textless := by
  induction v with
  | int i => exact isOk_json_iff (int i)
  | list items ih | tuple items ih =>
    simp only [display,isOk_map,isOk_displayItems,List.all_eq_true,textless_list_iff,
      textless_tuple_iff,not_exists,not_and]
    exact forall₂_congr ih
  | mapping entries => exact isOk_json_iff (mapping entries)
  | _ => exact iff_of_true rfl nofun

/-- The texts of the items are those of the list, one for each. -/
theorem displayItems_eq_ok_iff {items : List Value} {texts : List Text} :
    displayItems items = .ok texts ↔ List.Forall₂ (fun v t => v.display = .ok t) items texts := by
  induction items generalizing texts with
  | nil => cases texts <;> simp [displayItems]
  | cons item items ih =>
    simp only [displayItems,bind_eq_ok,List.forall₂_cons_left_iff,← ih,pure,Except.pure,
      Except.ok.injEq]
    constructor
    · rintro ⟨part,hpart,parts,hparts,rfl⟩
      exact ⟨part,parts,hpart,hparts,rfl⟩
    · rintro ⟨part,parts,hpart,hparts,rfl⟩
      exact ⟨part,hpart,parts,hparts,rfl⟩

end Stencil.Value

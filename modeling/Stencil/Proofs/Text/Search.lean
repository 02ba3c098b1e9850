import Mathlib.Data.List.Basic
import Stencil.Text.Search

/-! # Leftmost occurrences

A text is cut at the leftmost occurrence of a pattern just if the pattern occurs in it: what
stands before the cut is no longer than what stands before any other occurrence. Cut wherever a
character stands, it is the pieces with that character between neighbours.
-/
namespace Stencil.Text
variable {pattern t u w : Text}

theorem breakAt?_nil (pattern : Text) :
    breakAt? pattern [] = if pattern = [] then some ([],[]) else none := by
  cases pattern <;> rfl

/-- A text that begins with the pattern is cut there. -/
theorem breakAt?_pattern (pattern w : Text) : breakAt? pattern (pattern ++ w) = some ([],w) := by
  cases h : pattern ++ w with
  | nil =>
    obtain ⟨rfl,rfl⟩ := List.append_eq_nil_iff.mp h
    rfl
  | cons c rest => rw [breakAt?,List.isPrefixOf?_eq_some_iff_append_eq.mpr h]

theorem breakAt?_cons {c : Char} (h : ¬pattern <+: c :: t) :
    breakAt? pattern (c :: t) = (breakAt? pattern t).map fun cut => (c :: cut.1,cut.2) := by
  have hnone : pattern.isPrefixOf? (c :: t) = none := by
    refine Option.eq_none_iff_forall_ne_some.mpr fun w hw => h ⟨w,?_⟩
    exact List.isPrefixOf?_eq_some_iff_append_eq.mp hw
  rw [breakAt?,hnone]

theorem eq_append_of_breakAt? (h : breakAt? pattern t = some (u,w)) : t = u ++ (pattern ++ w) := by
  induction t generalizing u with
  | nil =>
    rw [breakAt?_nil] at h
    split at h
    · next hp =>
      cases h
      rw [hp]
      rfl
    · cases h
  | cons c t ih =>
    by_cases hp : pattern <+: c :: t
    · obtain ⟨w',hw⟩ := hp
      rw [← hw,breakAt?_pattern] at h
      cases h
      exact hw.symm
    · rw [breakAt?_cons hp] at h
      obtain ⟨⟨u',w'⟩,hcut,he⟩ := Option.map_eq_some_iff.mp h
      cases he
      rw [ih hcut]
      rfl

/-- Where the pattern occurs, the text is cut, there or further left. -/
theorem exists_breakAt? (h : t = u ++ (pattern ++ w)) :
    ∃ before after, breakAt? pattern t = some (before,after) ∧ before.length ≤ u.length := by
  induction u generalizing t with
  | nil =>
    subst h
    exact ⟨[],w,breakAt?_pattern pattern w,Nat.le_refl 0⟩
  | cons c u ih =>
    subst h
    by_cases hp : pattern <+: c :: (u ++ (pattern ++ w))
    · obtain ⟨w',hw⟩ := hp
      refine ⟨[],w',?_,Nat.zero_le _⟩
      rw [List.cons_append,← hw,breakAt?_pattern]
    · obtain ⟨before,after,hcut,hle⟩ := ih rfl
      refine ⟨c :: before,after,?_,Nat.succ_le_succ hle⟩
      rw [List.cons_append,breakAt?_cons hp,hcut]
      rfl

/-- A text is pieces without `separator`, at least one, that are joined by it. -/
theorem exists_pieces (separator : Char) (t : Text) :
    ∃ pieces : List Text, pieces ≠ [] ∧ t = [separator].intercalate pieces ∧
      ∀ piece ∈ pieces, separator ∉ piece := by
  induction t with
  | nil => exact ⟨[[]],by simp,rfl,by simp⟩
  | cons c t ih =>
    obtain ⟨pieces,hne,rfl,hpieces⟩ := ih
    obtain ⟨first,rest,rfl⟩ := List.exists_cons_of_ne_nil hne
    by_cases hc : c = separator
    · subst hc
      exact ⟨[] :: first :: rest,by simp,rfl,List.forall_mem_cons.mpr ⟨List.not_mem_nil,hpieces⟩⟩
    · obtain ⟨hfirst,hrest⟩ := List.forall_mem_cons.mp hpieces
      have hcons : separator ∉ c :: first := fun h =>
        (List.mem_cons.mp h).elim (fun he => hc he.symm) hfirst
      refine ⟨(c :: first) :: rest,by simp,?_,List.forall_mem_cons.mpr ⟨hcons,hrest⟩⟩
      cases rest <;> rfl

end Stencil.Text

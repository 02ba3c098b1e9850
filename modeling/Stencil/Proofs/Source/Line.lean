import Stencil.Source.Position

/-! # The line around a place

A text is cut, around an offset, into the line that the offset stands in and what is above and
below it. The row counts the newlines above, and the column what stands in the line before the
offset.
-/
namespace Stencil

/-- The line of `source` around `offset` is `before ++ after`, where `before` ends at `offset`. -/
structure Source.Line (source : Text) (offset : Nat) (above before after below : Text) : Prop where
  whole : source = above ++ (before ++ after ++ below)
  place : above.length + before.length = offset
  single : '\n' ∉ before ++ after
  begins : ∀ x ∈ above.getLast?, x = '\n'
  ends : ∀ x ∈ below.head?, x = '\n'

theorem newline_notMem_takeWhile (s : Text) : '\n' ∉ s.takeWhile (· ≠ '\n') := by
  intro h
  exact absurd (List.all_eq_true.mp List.all_takeWhile _ h) (by decide)

theorem eq_newline_of_head?_dropWhile {s : Text} :
    ∀ x ∈ (s.dropWhile (· ≠ '\n')).head?, x = '\n' := by
  intro x hx
  have hnot := List.head?_dropWhile_not (fun x : Char => decide (x ≠ '\n')) s
  rw [Option.mem_def.mp hx] at hnot
  exact Decidable.of_not_not (of_decide_eq_false hnot)

namespace Source
variable {source : Text} {offset : Nat}

theorem newline_notMem_lineBefore : '\n' ∉ lineBefore source offset := by
  intro h
  exact newline_notMem_takeWhile _ (List.mem_reverse.mp h)

theorem exists_above (source : Text) (offset : Nat) : ∃ above,
    source.take offset = above ++ lineBefore source offset ∧ ∀ x ∈ above.getLast?, x = '\n' := by
  refine ⟨((source.take offset).reverse.dropWhile (· ≠ '\n')).reverse,?_,?_⟩
  · rw [lineBefore,← List.reverse_append,List.takeWhile_append_dropWhile,List.reverse_reverse]
  · rw [List.getLast?_reverse]
    exact eq_newline_of_head?_dropWhile

theorem exists_below (source : Text) (offset : Nat) : ∃ below,
    source.drop offset = lineAfter source offset ++ below ∧ ∀ x ∈ below.head?, x = '\n' :=
  ⟨(source.drop offset).dropWhile (· ≠ '\n'),List.takeWhile_append_dropWhile.symm,
    eq_newline_of_head?_dropWhile⟩

theorem exists_line (h : offset ≤ source.length) : ∃ above below,
    Line source offset above (lineBefore source offset) (lineAfter source offset) below ∧
      position source offset = ⟨above.count '\n' + 1,(lineBefore source offset).length + 1⟩ := by
  obtain ⟨above,habove,hbegins⟩ := exists_above source offset
  obtain ⟨below,hbelow,hends⟩ := exists_below source offset
  refine ⟨above,below,⟨?_,?_,?_,hbegins,hends⟩,?_⟩
  · rw [List.append_assoc,← hbelow,← List.append_assoc,← habove,List.take_append_drop]
  · rw [← List.length_append,← habove,List.length_take_of_le h]
  · rw [List.mem_append,not_or]
    exact ⟨newline_notMem_lineBefore,newline_notMem_takeWhile _⟩
  · rw [position,habove,List.count_append,List.count_eq_zero_of_not_mem newline_notMem_lineBefore]

end Source

end Stencil

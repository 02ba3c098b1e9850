import Mathlib.Data.List.DropRight
import Mathlib.Data.List.Infix
import Stencil.Fragment.Output
import Stencil.Proofs.Text.Search
import Stencil.Proofs.Text.Squash

/-! # Spaces at line ends

Wherever the spaces before a newline come from, whether strings, values or newlines that were
printed, they are stripped from the text as a whole: line by line, and never from the last line.
-/
namespace Stencil

namespace Text

theorem rdropWhile_cons_of_nil {p : Char → Bool} {c : Char} {t : Text} (hc : p c = true)
    (ht : List.rdropWhile p t = []) : List.rdropWhile p (c :: t) = [] := by
  rw [List.rdropWhile_eq_nil_iff] at ht ⊢
  exact List.forall_mem_cons.mpr ⟨hc,ht⟩

/-- A character goes from the end of a text only if all behind it goes. -/
theorem rdropWhile_cons_of_not {p : Char → Bool} {c : Char} {t : Text}
    (h : ¬(p c = true ∧ List.rdropWhile p t = [])) :
    List.rdropWhile p (c :: t) = c :: List.rdropWhile p t := by
  rw [List.rdropWhile,List.reverse_cons,List.dropWhile_append]
  by_cases ht : t.reverse.dropWhile p = []
  · have hc : ¬p c = true := fun hc => h ⟨hc,List.reverse_eq_nil_iff.mpr ht⟩
    simp [ht,hc,List.rdropWhile]
  · simp [ht,List.rdropWhile]

/-- The end of a line is stripped on its own, whatever lines follow. -/
theorem stripLineEnds_line {line : Text} (h : '\n' ∉ line) (t : Text) :
    stripLineEnds (line ++ '\n' :: t) =
      List.rdropWhile (· == ' ') line ++ '\n' :: stripLineEnds t := by
  induction line with
  | nil => rfl
  | cons c line ih =>
    obtain ⟨_,hline⟩ := not_or.mp (mt List.mem_cons.mpr h)
    rw [List.cons_append,stripLineEnds,ih hline]
    by_cases hspace : (c == ' ') = true ∧ List.rdropWhile (· == ' ') line = []
    · rw [rdropWhile_cons_of_nil (p := (· == ' ')) hspace.1 hspace.2,hspace.2]
      exact if_pos ⟨eq_of_beq hspace.1,rfl⟩
    · rw [rdropWhile_cons_of_not hspace,if_neg]
      · rfl
      · rintro ⟨rfl,hhead⟩
        refine hspace ⟨rfl,?_⟩
        -- what is kept of the line holds no newline, so that it can only begin with one if it is empty
        cases hkept : List.rdropWhile (· == ' ') line with
        | nil => rfl
        | cons d kept =>
          rw [hkept] at hhead
          cases hhead
          exact absurd ((List.rdropWhile_prefix _ line).subset (hkept ▸ List.mem_cons_self)) hline

theorem stripLineEnds_intercalate {lines : List Text} {last : Text}
    (h : ∀ line ∈ lines ++ [last], '\n' ∉ line) :
    stripLineEnds (['\n'].intercalate (lines ++ [last])) =
      ['\n'].intercalate (lines.map (List.rdropWhile (· == ' ')) ++ [last]) := by
  induction lines with
  | nil =>
    have hlast : '\n' ∉ last := h last (by simp)
    simpa using stripLineEnds_of_notMem hlast
  | cons line lines ih =>
    obtain ⟨hline,hlines⟩ := List.forall_mem_cons.mp h
    have hcons : ∀ (first : Text) (more : List Text), ['\n'].intercalate (first :: (more ++ [last])) =
        first ++ '\n' :: ['\n'].intercalate (more ++ [last]) := by
      intro first more
      cases more <;> simp
    rw [List.cons_append,hcons,stripLineEnds_line hline,ih hlines,List.map_cons,List.cons_append,hcons]

theorem not_isInfix_stripLineEnds (t : Text) : ¬[' ','\n'] <:+: stripLineEnds t := by
  induction t with
  | nil => simp [stripLineEnds]
  | cons c t ih =>
    unfold stripLineEnds
    by_cases h : c = ' ' ∧ (stripLineEnds t).head? = some '\n'
    · rwa [if_pos h]
    · rw [if_neg h,List.infix_cons_iff]
      rintro (hstart | hlater)
      · refine h ?_
        cases hkept : stripLineEnds t with
        | nil => simp [hkept] at hstart
        | cons d kept =>
          rw [hkept,List.cons_prefix_cons,List.cons_prefix_cons] at hstart
          exact ⟨hstart.1.symm,congrArg some hstart.2.1.symm⟩
      · exact ih hlater

end Text

namespace Fragment
open Text

theorem output_trimEndLine_eq (initial : SquashMode) (depth : Nat) (fs : List Fragment) :
    output ⟨true,initial,depth⟩ fs = stripLineEnds (output ⟨false,initial,depth⟩ fs) := rfl

/-- Stripping line ends takes the trailing spaces off every line of the output but the last one,
and nothing else: no space stands before a newline then, and stripping again changes nothing. -/
theorem output_lineEnds (initial : SquashMode) (depth : Nat) (fs : List Fragment) :
    ∃ (lines : List Text) (last : Text),
      (output ⟨false,initial,depth⟩ fs).splitOn '\n' = lines ++ [last] ∧
      (output ⟨true,initial,depth⟩ fs).splitOn '\n' =
        lines.map (List.rdropWhile (· == ' ')) ++ [last] ∧
      ¬[' ','\n'] <:+: output ⟨true,initial,depth⟩ fs ∧
      stripLineEnds (output ⟨true,initial,depth⟩ fs) = output ⟨true,initial,depth⟩ fs := by
  rw [output_trimEndLine_eq]
  generalize output ⟨false,initial,depth⟩ fs = t
  obtain ⟨pieces,hne,ht,hpieces⟩ := exists_pieces '\n' t
  obtain ⟨lines,last,rfl⟩ := (List.eq_nil_or_concat' pieces).resolve_left hne
  have hstripped : ∀ piece ∈ lines.map (List.rdropWhile (· == ' ')) ++ [last], '\n' ∉ piece := by
    intro piece hpiece
    rcases List.mem_append.mp hpiece with hline | hlast
    · obtain ⟨line,hmem,rfl⟩ := List.mem_map.mp hline
      exact fun h => hpieces line (by simp [hmem]) ((List.rdropWhile_prefix _ line).subset h)
    · exact hpieces piece (List.mem_append_right _ hlast)
  refine ⟨lines,last,?_,?_,not_isInfix_stripLineEnds t,stripLineEnds_stripLineEnds t⟩
  · rw [ht]
    exact List.splitOn_intercalate '\n' hpieces hne
  · rw [ht,stripLineEnds_intercalate hpieces]
    exact List.splitOn_intercalate '\n' hstripped (by simp)

end Fragment

end Stencil

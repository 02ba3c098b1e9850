import Mathlib.Data.List.Chain
import Stencil.Text.Squash

/-! # Settled texts

What a pass over the blanks of a text leaves behind it leaves alone the next time: a squashed
text stays as it is when it is squashed again, a trimmed one when it is trimmed, and a text
without spaces at its line ends when they are stripped.
-/
namespace Stencil.Text
variable {t u : Text}

/-- `t` holds no newline, and no blank stands next to another one. -/
structure Squashed (t : Text) : Prop where
  no_newline : '\n' ∉ t
  apart : t.IsChain fun c d => isBlank c = true → isBlank d = false

theorem squashed_nil : Squashed [] := ⟨List.not_mem_nil,.nil⟩

theorem squashed_cons {c : Char} : Squashed (c :: t) ↔
    c ≠ '\n' ∧ (isBlank c = true → ∀ d ∈ t.head?, isBlank d = false) ∧ Squashed t := by
  constructor
  · rintro ⟨hnewline,hapart⟩
    obtain ⟨hhead,hapart⟩ := List.isChain_cons.mp hapart
    obtain ⟨hc,ht⟩ := not_or.mp (mt List.mem_cons.mpr hnewline)
    exact ⟨Ne.symm hc,fun hb d hd => hhead d hd hb,ht,hapart⟩
  · rintro ⟨hc,hhead,ht,hapart⟩
    refine ⟨fun h => ?_,List.isChain_cons.mpr ⟨fun d hd hb => hhead hb d hd,hapart⟩⟩
    exact (List.mem_cons.mp h).elim (fun he => hc he.symm) ht

theorem Squashed.left (h : Squashed (t ++ u)) : Squashed t where
  no_newline hm := h.no_newline (List.mem_append_left u hm)
  apart := h.apart.left_of_append

theorem Squashed.right (h : Squashed (u ++ t)) : Squashed t where
  no_newline hm := h.no_newline (List.mem_append_right u hm)
  apart := h.apart.right_of_append

/-- An open run puts out one blank at most, before what begins with none. -/
theorem squashed_settle_append (run : BlankRun) (ht : Squashed t)
    (hhead : ∀ d ∈ t.head?, isBlank d = false) : Squashed (run.settle ++ t) := by
  cases run with
  | empty => exact ht
  | single c =>
    by_cases hc : c = '\n'
    · rw [BlankRun.settle,if_pos hc]
      exact ht
    · rw [BlankRun.settle,if_neg hc]
      exact squashed_cons.mpr ⟨hc,fun _ => hhead,ht⟩
  | many => exact squashed_cons.mpr ⟨by decide,fun _ => hhead,ht⟩

theorem squashed_squashAfter (run : BlankRun) (t : Text) : Squashed (squashAfter run t) := by
  induction t generalizing run with
  | nil =>
    rw [squashAfter,← List.append_nil run.settle]
    exact squashed_settle_append run squashed_nil (by simp)
  | cons c t ih =>
    unfold squashAfter
    by_cases hc : isBlank c = true
    · rw [if_pos hc]
      exact ih _
    · rw [if_neg hc]
      have hne : c ≠ '\n' := by
        rintro rfl
        exact hc isBlank_newline
      have hcons : Squashed (c :: squashAfter .empty t) :=
        squashed_cons.mpr ⟨hne,fun hb => absurd hb hc,ih _⟩
      exact squashed_settle_append run hcons (by simpa using hc)

theorem squashed_squash (t : Text) : Squashed t.squash := squashed_squashAfter .empty t

/-- In a squashed text every run is a lone blank, which comes out again. -/
theorem squashAfter_of_squashed {run : BlankRun}
    (hrun : run = .empty ∨ ∃ c, isBlank c = true ∧ run.settle = [c])
    (h : Squashed (run.settle ++ t)) : squashAfter run t = run.settle ++ t := by
  induction t generalizing run with
  | nil => rw [squashAfter,List.append_nil]
  | cons c t ih =>
    unfold squashAfter
    by_cases hc : isBlank c = true
    · rw [if_pos hc]
      rcases hrun with rfl | ⟨d,hd,hsettle⟩
      · have hsettle : BlankRun.settle (.single c) = [c] := if_neg (squashed_cons.mp h).1
        have hagain := @ih (.single c) (Or.inr ⟨c,hc,hsettle⟩) (by rw [hsettle]; exact h)
        rw [hsettle] at hagain
        exact hagain
      · rw [hsettle] at h
        have hapart := (squashed_cons.mp h).2.1 hd c rfl
        rw [hc] at hapart
        cases hapart
    · have hrest : Squashed (BlankRun.empty.settle ++ t) := (squashed_cons.mp h.right).2.2
      rw [if_neg hc,ih (Or.inl rfl) hrest]
      rfl

theorem squash_of_squashed (h : Squashed t) : t.squash = t :=
  squashAfter_of_squashed (Or.inl rfl) h

/-- `t` neither begins nor ends with a blank. -/
structure Trimmed (t : Text) : Prop where
  start : ∀ c ∈ t.head?, isBlank c = false
  stop : ∀ c ∈ t.getLast?, isBlank c = false

theorem trimStart_of_head (h : ∀ c ∈ t.head?, isBlank c = false) : t.trimStart = t := by
  cases t with
  | nil => rfl
  | cons c t => rw [trimStart,List.dropWhile_cons,if_neg (by simp [h c rfl])]

theorem trim_of_trimmed (h : Trimmed t) : t.trim = t := by
  have hstop : trimStart t.reverse = t.reverse :=
    trimStart_of_head (by rw [List.head?_reverse]; exact h.stop)
  rw [trim,trimStart_of_head h.start,trimEnd]
  exact (congrArg List.reverse hstop).trans (List.reverse_reverse t)

theorem head_trimStart (t : Text) : ∀ c ∈ t.trimStart.head?, isBlank c = false := by
  intro c hc
  have hnot := List.head?_dropWhile_not isBlank t
  rw [show t.dropWhile isBlank = t.trimStart from rfl,show t.trimStart.head? = some c from hc] at hnot
  simpa using hnot

/-- Trimming the end takes something off the end alone. -/
theorem exists_trimEnd (t : Text) : ∃ u, t = t.trimEnd ++ u := by
  refine ⟨(t.reverse.takeWhile isBlank).reverse,?_⟩
  rw [trimEnd,← List.reverse_append,List.takeWhile_append_dropWhile,List.reverse_reverse]

theorem trimmed_trim (t : Text) : Trimmed t.trim where
  start := by
    obtain ⟨u,hu⟩ := exists_trimEnd t.trimStart
    have hhead := head_trimStart t
    rw [hu] at hhead
    intro c hc
    rw [trim] at hc
    exact hhead c (by rw [List.head?_append,Option.mem_def.mp hc]; rfl)
  stop := by
    rw [trim,trimEnd,List.getLast?_reverse]
    exact head_trimStart _

theorem Squashed.trim (h : Squashed t) : Squashed t.trim := by
  have hstart : Squashed t.trimStart := by
    rw [← List.takeWhile_append_dropWhile (p := isBlank) (l := t)] at h
    exact h.right
  obtain ⟨u,hu⟩ := exists_trimEnd t.trimStart
  rw [hu] at hstart
  exact hstart.left

theorem stripLineEnds_of_notMem (h : '\n' ∉ t) : t.stripLineEnds = t := by
  induction t with
  | nil => rfl
  | cons c t ih =>
    obtain ⟨_,ht⟩ := not_or.mp (mt List.mem_cons.mpr h)
    have hhead : t.head? ≠ some '\n' := fun he => ht (List.mem_of_mem_head? he)
    simp only [stripLineEnds,ih ht,hhead,and_false,if_false]

theorem stripLineEnds_stripLineEnds (t : Text) : t.stripLineEnds.stripLineEnds = t.stripLineEnds := by
  induction t with
  | nil => rfl
  | cons c t ih =>
    by_cases h : c = ' ' ∧ (stripLineEnds t).head? = some '\n'
    · simp only [stripLineEnds,if_pos h,ih]
    · simp only [stripLineEnds,if_neg h,ih]

theorem getLast?_stripLineEnds (t : Text) : t.stripLineEnds.getLast? = t.getLast? := by
  induction t with
  | nil => rfl
  | cons c t ih =>
    unfold stripLineEnds
    by_cases h : c = ' ' ∧ (stripLineEnds t).head? = some '\n'
    · have hne : t ≠ [] := by
        rintro rfl
        cases h.2
      rw [if_pos h,ih,List.getLast?_cons_of_ne_nil hne]
    · rw [if_neg h,List.getLast?_cons,List.getLast?_cons,ih]

theorem Trimmed.stripLineEnds (h : Trimmed t) : Trimmed t.stripLineEnds where
  start := by
    cases t with
    | nil => exact h.start
    | cons c t =>
      have hc : c ≠ ' ' := by
        rintro rfl
        exact absurd (h.start ' ' rfl) (by decide)
      have hkept : Text.stripLineEnds (c :: t) = c :: Text.stripLineEnds t := if_neg fun he => hc he.1
      rw [hkept]
      exact h.start
  stop := by
    rw [getLast?_stripLineEnds]
    exact h.stop

end Stencil.Text

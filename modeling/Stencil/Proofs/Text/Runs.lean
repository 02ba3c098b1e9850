import Mathlib.Data.List.SplitBy
import Stencil.Proofs.Fragment.Visible
import Stencil.Proofs.Text.Squash

/-! # Squashing run by run

A text is cut into its maximal runs of blank and of visible characters. Squashing works on each of
them alone: blanks that a newline kept apart do not meet when it goes, because all of them belonged
to one run.
-/
namespace Stencil.Text

/-- The text cut wherever a blank and a visible character meet. -/
def runs (t : Text) : List Text := t.splitBy fun c d => isBlank c == isBlank d

/-- All characters are blank, or all are visible. -/
def Uniform (run : Text) : Prop := (∀ c ∈ run, isBlank c = true) ∨ ∀ c ∈ run, isBlank c = false

/-- `runs` are the maximal runs of `t`. -/
structure AreRuns (t : Text) (runs : List Text) : Prop where
  whole : runs.flatten = t
  nonempty : ∀ run ∈ runs, run ≠ []
  uniform : ∀ run ∈ runs, Uniform run
  maximal : runs.IsChain fun run next => run.all isBlank ≠ next.all isBlank

theorem all_isBlank_of_uniform {run : Text} {c : Char} (h : Uniform run) (hc : c ∈ run) :
    run.all isBlank = isBlank c := by
  rcases h with h | h
  · rw [h c hc]
    exact List.all_eq_true.mpr h
  · rw [h c hc]
    exact List.all_eq_false.mpr ⟨c,hc,by simp [h c hc]⟩

theorem uniform_of_mem_runs {t run : Text} (h : run ∈ t.runs) : Uniform run := by
  have hchain : run.IsChain fun c d => isBlank c = isBlank d := by
    simpa using List.isChain_of_mem_splitBy h
  cases run with
  | nil => exact .inl fun c hc => by cases hc
  | cons c run =>
    have hsame : ∀ d ∈ c :: run, isBlank d = isBlank c :=
      hchain.induction _ _ (fun _ _ hxy hx => hxy.symm.trans hx) fun _ => rfl
    cases hc : isBlank c with
    | true => exact .inl fun d hd => (hsame d hd).trans hc
    | false => exact .inr fun d hd => (hsame d hd).trans hc

theorem areRuns_runs (t : Text) : AreRuns t t.runs where
  whole := List.flatten_splitBy _ t
  nonempty _ := List.ne_nil_of_mem_splitBy
  uniform _ := uniform_of_mem_runs
  maximal := by
    refine (List.isChain_getLast_head_splitBy _ t).imp_of_mem_imp ?_
    rintro run next hrun hnext ⟨hlast,hhead,hne⟩
    rw [all_isBlank_of_uniform (uniform_of_mem_runs hrun) (List.getLast_mem hlast),
      all_isBlank_of_uniform (uniform_of_mem_runs hnext) (List.head_mem hhead)]
    simpa using hne

/-- Two blanks or more become a space, a lone newline vanishes, and all else stays. -/
def squashRun (run : Text) : Text :=
  if run.all isBlank then
    if 2 ≤ run.length then [' '] else if run = ['\n'] then [] else run
  else run

/-- Two blanks or more become a space, and all else stays, a lone newline too. -/
def collapseRun (run : Text) : Text := if run.all isBlank ∧ 2 ≤ run.length then [' '] else run

theorem squashAfter_blanks {run : Text} (h : ∀ c ∈ run, isBlank c = true) (state : BlankRun) (t : Text) :
    squashAfter state (run ++ t) = squashAfter (run.foldl (fun state c => state.push c) state) t := by
  induction run generalizing state with
  | nil => rfl
  | cons c run ih =>
    obtain ⟨hc,hrun⟩ := List.forall_mem_cons.mp h
    rw [List.cons_append,squashAfter,if_pos hc]
    exact ih hrun _

theorem squash_visibles {run : Text} (h : ∀ c ∈ run, isBlank c = false) (t : Text) :
    squash (run ++ t) = run ++ t.squash := by
  induction run with
  | nil => rfl
  | cons c run ih =>
    obtain ⟨hc,hrun⟩ := List.forall_mem_cons.mp h
    rw [List.cons_append,squash,squashAfter,if_neg (by simp [hc])]
    exact congrArg (c :: ·) (ih hrun)

/-- A visible character, or the end of the text, closes a run of blanks. -/
theorem squashAfter_eq_settle {t : Text} (h : ∀ c ∈ t.head?, isBlank c = false) (state : BlankRun) :
    squashAfter state t = state.settle ++ t.squash := by
  cases t with
  | nil => exact (List.append_nil _).symm
  | cons c t =>
    have hc : ¬isBlank c = true := by simp [h c rfl]
    rw [squash,squashAfter,squashAfter,if_neg hc,if_neg hc]
    rfl

theorem foldl_push_many (run : Text) :
    run.foldl (fun state c => state.push c) BlankRun.many = .many := by
  induction run with
  | nil => rfl
  | cons c run ih => exact ih

theorem settle_foldl_push {run : Text} (h : ∀ c ∈ run, isBlank c = true) :
    (run.foldl (fun state c => state.push c) BlankRun.empty).settle = squashRun run := by
  have hall : run.all isBlank = true := List.all_eq_true.mpr h
  rw [squashRun,if_pos hall]
  cases run with
  | nil => rfl
  | cons c run =>
    cases run with
    | nil => simp [BlankRun.push,BlankRun.settle]
    | cons d run =>
      rw [if_pos (by simp)]
      exact congrArg BlankRun.settle (foldl_push_many run)

theorem AreRuns.tail {t run : Text} {runs : List Text} (h : AreRuns t (run :: runs)) :
    AreRuns runs.flatten runs where
  whole := rfl
  nonempty _ hmem := h.nonempty _ (List.mem_cons_of_mem _ hmem)
  uniform _ hmem := h.uniform _ (List.mem_cons_of_mem _ hmem)
  maximal := h.maximal.tail

theorem AreRuns.head_visible {t run : Text} {runs : List Text} (h : AreRuns t (run :: runs))
    (hblank : run.all isBlank = true) : ∀ c ∈ runs.flatten.head?, isBlank c = false := by
  cases runs with
  | nil => simp
  | cons next runs =>
    intro c hc
    have hnext : next ≠ [] := h.nonempty next (by simp)
    have hmem : c ∈ next := by
      rw [List.flatten_cons,List.head?_append_of_ne_nil _ hnext] at hc
      exact List.mem_of_mem_head? hc
    have hne : run.all isBlank ≠ next.all isBlank := (List.isChain_cons_cons.mp h.maximal).1
    rw [hblank,all_isBlank_of_uniform (h.uniform next (by simp)) hmem] at hne
    simpa using hne.symm

theorem squash_flatten {t : Text} {runs : List Text} (h : AreRuns t runs) :
    squash runs.flatten = runs.flatMap squashRun := by
  induction runs generalizing t with
  | nil => rfl
  | cons run runs ih =>
    rw [List.flatten_cons,List.flatMap_cons,← ih h.tail]
    rcases h.uniform run List.mem_cons_self with hblank | hvisible
    · have hnext := h.head_visible (List.all_eq_true.mpr hblank)
      rw [squash,squashAfter_blanks hblank,squashAfter_eq_settle hnext,settle_foldl_push hblank]
    · have hnot : ¬run.all isBlank = true := by
        obtain ⟨c,hc⟩ := List.exists_mem_of_ne_nil _ (h.nonempty run List.mem_cons_self)
        rw [all_isBlank_of_uniform (.inr hvisible) hc,hvisible c hc]
        decide
      rw [squash_visibles hvisible,squashRun,if_neg hnot]

theorem filter_collapseRun {run : Text} (h : Uniform run) :
    (collapseRun run).filter (· ≠ '\n') = squashRun run := by
  by_cases hmany : run.all isBlank ∧ 2 ≤ run.length
  · rw [collapseRun,if_pos hmany,squashRun,if_pos hmany.1,if_pos hmany.2]
    rfl
  rw [collapseRun,if_neg hmany]
  by_cases hblank : run.all isBlank = true
  · have hshort : ¬2 ≤ run.length := fun hlength => hmany ⟨hblank,hlength⟩
    rw [squashRun,if_pos hblank,if_neg hshort]
    match run,hshort with
    | [],_ => rfl
    | [c],_ => by_cases hc : c = '\n' <;> simp [hc]
    | _ :: _ :: _,hshort => simp at hshort
  · rw [squashRun,if_neg hblank]
    refine List.filter_eq_self.mpr fun c hc => decide_eq_true ?_
    rintro rfl
    exact hblank ((all_isBlank_of_uniform h hc).trans isBlank_newline)

/-- Squashing works run by run: two blanks or more become a space, a lone newline vanishes, and
every other run stays, so that collapsing first and dropping newlines then is the same. What comes
out holds no newline and no two blanks next to each other, all visible characters in their order,
and is not changed by squashing again. -/
theorem squash_runs (t : Text) :
    AreRuns t t.runs ∧ t.squash = t.runs.flatMap squashRun ∧
      t.squash = (t.runs.flatMap collapseRun).filter (· ≠ '\n') ∧
      '\n' ∉ t.squash ∧ t.squash.IsChain (fun c d => isBlank c = true → isBlank d = false) ∧
      t.squash.visible = t.visible ∧ t.squash.squash = t.squash := by
  have hruns := areRuns_runs t
  have hsquash : t.squash = t.runs.flatMap squashRun := by
    rw [← squash_flatten hruns,hruns.whole]
  have hcollapse : (t.runs.flatMap collapseRun).filter (· ≠ '\n') = t.runs.flatMap squashRun := by
    rw [List.filter_flatMap]
    exact List.flatMap_congr fun run hrun => filter_collapseRun (hruns.uniform run hrun)
  have hsquashed := squashed_squash t
  exact ⟨hruns,hsquash,hsquash.trans hcollapse.symm,hsquashed.no_newline,hsquashed.apart,
    visible_squash t,squash_of_squashed hsquashed⟩

end Stencil.Text

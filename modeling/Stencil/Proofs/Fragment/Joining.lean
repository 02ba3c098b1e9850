import Mathlib.Data.List.Chain
import Stencil.Proofs.Fragment.Layout

/-! # Joined strings

Joining leaves no two strings next to each other and keeps the rest: the other fragments with
their order, and in each place between them the text of the strings that stood there. How the
text of a template was cut into strings makes no difference to the output.
-/
namespace Stencil.Fragment

def isString : Fragment → Bool
  | string _ => true
  | _ => false

/-- Two strings, which do not stay apart. -/
def Joinable (f g : Fragment) : Prop := f.isString = true ∧ g.isString = true

/-- The fragments that are no strings. -/
def others (fs : List Fragment) : List Fragment := fs.filter (!·.isString)

/-- The texts of the runs of strings: one before each other fragment and one behind the last of
them, or none where no string stands. The first run goes on from `run`. -/
def runsAfter (run : Option Text) : List Fragment → List (Option Text)
  | [] => [run]
  | string t :: fs => runsAfter (some (run.getD [] ++ t)) fs
  | value _ :: fs => run :: runsAfter none fs
  | trim _ :: fs => run :: runsAfter none fs
  | conf _ _ :: fs => run :: runsAfter none fs

def runs (fs : List Fragment) : List (Option Text) := runsAfter none fs

theorem mergeCons_of_not_joinable {f g : Fragment} (h : ¬Joinable f g) (fs : List Fragment) :
    mergeCons f (g :: fs) = f :: g :: fs := by
  cases f with
  | string s =>
    cases g with
    | string t => exact absurd ⟨rfl,rfl⟩ h
    | _ => rfl
  | _ => rfl

/-- A string in front of two pieces of text joins them both. -/
theorem mergeCons_append (s t : Text) (fs : List Fragment) :
    mergeCons (string (s ++ t)) fs = mergeCons (string s) (mergeCons (string t) fs) := by
  cases fs with
  | nil => rfl
  | cons f fs =>
    cases f with
    | string u => simp [mergeCons]
    | _ => rfl

theorem isChain_mergeCons (f : Fragment) {fs : List Fragment}
    (h : fs.IsChain fun f g => ¬Joinable f g) :
    (mergeCons f fs).IsChain fun f g => ¬Joinable f g := by
  cases fs with
  | nil => cases f <;> exact .singleton _
  | cons g rest =>
    by_cases hj : Joinable f g
    · cases f with
      | string s =>
        cases g with
        | string t =>
          -- what follows the joined string followed a string before
          cases rest with
          | nil => exact .singleton _
          | cons g' rest =>
            obtain ⟨hg,hrest⟩ := List.isChain_cons_cons.mp h
            exact .cons_cons hg hrest
        | _ => cases hj.2
      | _ => cases hj.1
    · rw [mergeCons_of_not_joinable hj]
      exact .cons_cons hj h

theorem others_mergeCons (f : Fragment) (fs : List Fragment) :
    others (mergeCons f fs) = others (f :: fs) := by
  unfold mergeCons
  split
  · simp [others,isString]
  · rfl

theorem runsAfter_mergeCons (run : Option Text) (f : Fragment) (fs : List Fragment) :
    runsAfter run (mergeCons f fs) = runsAfter run (f :: fs) := by
  unfold mergeCons
  split
  · simp [runsAfter]
  · rfl

theorem merge_append (fs gs : List Fragment) :
    merge (fs ++ gs) = fs.foldr mergeCons (merge gs) := List.foldr_append

/-- Wherever a string is cut in two, its pieces are joined again. -/
theorem merge_cut (fs gs : List Fragment) (s t : Text) :
    merge (fs ++ string s :: string t :: gs) = merge (fs ++ string (s ++ t) :: gs) := by
  rw [merge_append,merge_append,merge_cons,merge_cons,merge_cons,mergeCons_append]

theorem isChain_merge (fs : List Fragment) : (merge fs).IsChain fun f g => ¬Joinable f g := by
  induction fs with
  | nil => exact .nil
  | cons f fs ih => exact isChain_mergeCons f ih

theorem others_cons (f : Fragment) (fs : List Fragment) :
    others (f :: fs) = if f.isString then others fs else f :: others fs := by
  unfold others
  cases h : f.isString <;> simp [h]

theorem others_merge (fs : List Fragment) : others (merge fs) = others fs := by
  induction fs with
  | nil => rfl
  | cons f fs ih => rw [merge_cons,others_mergeCons,others_cons,others_cons,ih]

theorem runsAfter_merge (run : Option Text) (fs : List Fragment) :
    runsAfter run (merge fs) = runsAfter run fs := by
  induction fs generalizing run with
  | nil => rfl
  | cons f fs ih =>
    rw [merge_cons,runsAfter_mergeCons]
    cases f with
    | string t => exact ih _
    | _ => exact congrArg (run :: ·) (ih none)

example : runs (merge [string ['a'],string ['b'],value ['c'],string [],trim .left]) =
    [some ['a','b'],some [],none] := by rfl

/-- Where no strings meet, there is nothing to join. -/
theorem merge_of_isChain {fs : List Fragment} (h : fs.IsChain fun f g => ¬Joinable f g) :
    merge fs = fs := by
  induction h with
  | nil => rfl
  | singleton f => cases f <;> rfl
  | cons_cons hj _ ih => rw [merge_cons,ih,mergeCons_of_not_joinable hj]

theorem merge_merge (fs : List Fragment) : merge (merge fs) = merge fs :=
  merge_of_isChain (isChain_merge fs)

theorem output_of_merge_eq {fs gs : List Fragment} (h : merge fs = merge gs) (options : Options) :
    output options fs = output options gs := by
  unfold output
  rw [h]

/-- Strings give no warnings. -/
theorem warnings_others (fs : List Fragment) : warnings (others fs) = warnings fs := by
  unfold warnings others
  rw [List.filterMap_filter]
  congr 1
  funext f
  cases f <;> rfl

theorem warnings_merge (fs : List Fragment) : warnings (merge fs) = warnings fs := by
  rw [← warnings_others,others_merge,warnings_others]

theorem warnings_of_merge_eq {fs gs : List Fragment} (h : merge fs = merge gs) :
    warnings fs = warnings gs := by
  rw [← warnings_merge,h,warnings_merge]

/-- How the text of a template is cut into strings makes no difference to the output and its
warnings. Joined strings stand apart, with the other fragments as they were and with the text of
every run of strings in its place, and joining them again changes nothing. -/
theorem output_cut (options : Options) :
    (∀ fs gs s t,
      output options (fs ++ string (s ++ t) :: gs) = output options (fs ++ string s :: string t :: gs) ∧
      warnings (fs ++ string (s ++ t) :: gs) = warnings (fs ++ string s :: string t :: gs)) ∧
    ∀ fs, (merge fs).IsChain (fun f g => ¬Joinable f g) ∧ others (merge fs) = others fs ∧
      runs (merge fs) = runs fs ∧ merge (merge fs) = merge fs ∧
      output options (merge fs) = output options fs ∧ warnings (merge fs) = warnings fs := by
  refine ⟨fun fs gs s t => ?_,fun fs => ?_⟩
  · have hcut := (merge_cut fs gs s t).symm
    exact ⟨output_of_merge_eq hcut options,warnings_of_merge_eq hcut⟩
  · have hagain := merge_merge fs
    refine ⟨isChain_merge fs,others_merge fs,runsAfter_merge none fs,hagain,?_,warnings_merge fs⟩
    exact output_of_merge_eq hagain options

end Stencil.Fragment

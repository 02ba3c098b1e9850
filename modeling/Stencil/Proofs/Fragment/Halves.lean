import Stencil.Proofs.Fragment.Layout

/-! # Output on both sides of a marker

A marker that sets the squash mode cuts the output in two. It joins no strings and trims
nothing, the fragment before it is never the last one and the fragment behind it never the
first, and the mode that it sets hides the one before.
-/
namespace Stencil.Fragment

/-- A marker that sets the squash mode. -/
def squashMarker (mode : SquashMode) : Fragment := conf "squash".toList mode.name

theorem confMode?_name (mode : SquashMode) : confMode? "squash".toList mode.name = some mode := by
  cases mode <;> decide

/-- Strings are not joined across a marker. -/
theorem merge_append_conf (key setting : Text) (fs gs : List Fragment) :
    merge (fs ++ conf key setting :: gs) = merge fs ++ conf key setting :: merge gs := by
  induction fs with
  | nil => rfl
  | cons f fs ih =>
    rw [List.cons_append,merge_cons,merge_cons,ih]
    cases f with
    | string s =>
      cases merge fs with
      | nil => rfl
      | cons g rest => cases g <;> rfl
    | _ => rfl

theorem trimBetween_conf (before after : Option Fragment) (key setting : Text) :
    trimBetween before (conf key setting) after = conf key setting := by
  rw [trimBetween_eq,mapContent]

/-- Beside a marker that does not trim, a fragment is trimmed as at the end. -/
theorem applyTrimsAfter_append_conf (before : Option Fragment) (key setting : Text)
    (fs gs : List Fragment) :
    applyTrimsAfter before (fs ++ conf key setting :: gs) =
      applyTrimsAfter before fs ++ conf key setting :: applyTrims gs := by
  induction fs generalizing before with
  | nil =>
    have hgs : applyTrimsAfter (some (conf key setting)) gs = applyTrims gs := by
      cases gs <;> rfl
    simp only [List.nil_append,applyTrimsAfter,trimBetween_conf,hgs]
  | cons f fs ih =>
    have hf : trimBetween before f (fs ++ conf key setting :: gs).head? =
        trimBetween before f fs.head? := by
      cases fs <;> rfl
    rw [List.cons_append,applyTrimsAfter,applyTrimsAfter,hf,ih,List.cons_append]

theorem applyTrims_merge_append_conf (key setting : Text) (fs gs : List Fragment) :
    applyTrims (merge (fs ++ conf key setting :: gs)) =
      applyTrims (merge fs) ++ conf key setting :: applyTrims (merge gs) := by
  rw [merge_append_conf,applyTrims,applyTrimsAfter_append_conf]
  rfl

theorem pieces_squashMarker (initial mode : SquashMode) (isFirst : Bool) (fs : List Fragment) :
    pieces initial isFirst (squashMarker mode :: fs) = pieces mode false fs := by
  rw [squashMarker,pieces,confMode?_name]
  rfl

/-- What stands before a marker is settled as before any other one, and what stands behind it
begins anew. -/
theorem pieces_append_squashMarker (initial mode mode' : SquashMode) (isFirst : Bool)
    (fs gs : List Fragment) :
    pieces initial isFirst (fs ++ squashMarker mode :: gs) =
      pieces initial isFirst (fs ++ [squashMarker mode']) ++ pieces mode false gs := by
  induction fs generalizing initial isFirst with
  | nil =>
    simp only [List.nil_append,pieces_squashMarker]
    rfl
  | cons f fs ih =>
    cases f with
    | string t =>
      have hlast : ∀ rest, (fs ++ squashMarker mode :: rest).isEmpty = false := by simp
      have hlast' : (fs ++ [squashMarker mode']).isEmpty = false := by simp
      simp only [List.cons_append,pieces,ih,hlast,hlast']
    | _ => simp only [List.cons_append,pieces,ih]

theorem output_of_not_trimEndLine (initial : SquashMode) (depth : Nat) (fs : List Fragment) :
    output ⟨false,initial,depth⟩ fs = (pieces initial true (applyTrims (merge fs))).flatten := rfl

/-- Where line ends are left alone, a marker that sets the squash mode cuts the output in two
independent parts: the first one is the same whatever follows it and whichever mode the marker
sets, and the second one is the same whatever stands before it and whichever mode it began with. -/
theorem output_append_squashMarker (initial mode : SquashMode) (depth : Nat) (fs gs : List Fragment) :
    output ⟨false,initial,depth⟩ (fs ++ squashMarker mode :: gs) =
        output ⟨false,initial,depth⟩ (fs ++ [squashMarker mode]) ++
          output ⟨false,initial,depth⟩ (squashMarker mode :: gs) ∧
      (∀ mode', output ⟨false,initial,depth⟩ (fs ++ [squashMarker mode']) =
        output ⟨false,initial,depth⟩ (fs ++ [squashMarker mode])) ∧
      ∀ initial', output ⟨false,initial',depth⟩ (squashMarker mode :: gs) =
        output ⟨false,initial,depth⟩ (squashMarker mode :: gs) := by
  -- each side of the marker is joined and trimmed on its own
  have hsides : ∀ mode' fs gs, applyTrims (merge (fs ++ squashMarker mode' :: gs)) =
      applyTrims (merge fs) ++ squashMarker mode' :: applyTrims (merge gs) := fun mode' =>
    applyTrims_merge_append_conf "squash".toList mode'.name
  have hbehind : ∀ initial', output ⟨false,initial',depth⟩ (squashMarker mode :: gs) =
      (pieces mode false (applyTrims (merge gs))).flatten := by
    intro initial'
    have hgs := hsides mode [] gs
    rw [output_of_not_trimEndLine,← List.nil_append (squashMarker mode :: gs),hgs]
    exact congrArg List.flatten (pieces_squashMarker initial' mode true _)
  refine ⟨?_,fun mode' => ?_,fun initial' => ?_⟩
  · rw [hbehind,output_of_not_trimEndLine,output_of_not_trimEndLine,hsides,hsides,
      pieces_append_squashMarker initial mode mode,List.flatten_append]
    rfl
  · have hmode := pieces_append_squashMarker initial mode' mode true (applyTrims (merge fs)) []
    rw [pieces,List.append_nil] at hmode
    rw [output_of_not_trimEndLine,output_of_not_trimEndLine,hsides,hsides]
    exact congrArg List.flatten hmode
  · rw [hbehind,hbehind]

end Stencil.Fragment

import Stencil.Proofs.Fragment.Layout
import Stencil.Proofs.Text.Squash

/-! # Markers and their neighbours

Markers that work one after another, in the list itself, read contents which earlier ones have
changed. What they come to can still be told place by place from the list as it was: a fragment
loses its blanks on a side if the one marker next to it there works that way.
-/
namespace Stencil

theorem Sides.trim_nil (sides : Sides) : sides.trim [] = [] := by
  obtain ⟨start,stop⟩ := sides
  cases start <;> cases stop <;> rfl

theorem Sides.trim_trim (sides : Sides) (t : Text) : sides.trim (sides.trim t) = sides.trim t := by
  have hstart : t.trimStart.trimStart = t.trimStart := Text.trimStart_of_head (Text.head_trimStart t)
  have hstop : t.trimEnd.trimEnd = t.trimEnd := by
    have h := Text.trimStart_of_head (Text.head_trimStart t.reverse)
    simpa only [Text.trimEnd,Text.trimStart,List.reverse_reverse] using congrArg List.reverse h
  obtain ⟨start,stop⟩ := sides
  cases start <;> cases stop
  · rfl
  · exact hstop
  · exact hstart
  · exact Text.trim_of_trimmed (Text.trimmed_trim t)

namespace Fragment

/-- A fragment without its content: its kind, and what a marker says. -/
def emptied (f : Fragment) : Fragment := f.mapContent fun _ => []

theorem emptied_mapContent (g : Text → Text) (f : Fragment) : (f.mapContent g).emptied = f.emptied := by
  cases f <;> rfl

theorem content_mapContent {g : Text → Text} (hg : g [] = []) (f : Fragment) :
    (f.mapContent g).content = g f.content := by
  cases f with
  | string t => rfl
  | value t => rfl
  | trim direction => exact hg.symm
  | conf key setting => exact hg.symm

theorem mapContent_mapContent (g h : Text → Text) (f : Fragment) :
    (f.mapContent g).mapContent h = f.mapContent fun t => h (g t) := by
  cases f <;> rfl

theorem mapContent_neither (f : Fragment) : f.mapContent Sides.neither.trim = f := by
  cases f <;> rfl

theorem trimsAfter_mapContent (g : Text → Text) (f : Fragment) :
    (f.mapContent g).trimsAfter = f.trimsAfter := by
  cases f <;> rfl

theorem trimsBefore_mapContent (g : Text → Text) (f : Fragment) :
    (f.mapContent g).trimsBefore = f.trimsBefore := by
  cases f <;> rfl

theorem any_trimsAfter_iff {beside : Option Fragment} : beside.any trimsAfter = true ↔
    ∃ direction, beside = some (trim direction) ∧ (direction = .right ∨ direction = .both) := by
  rcases beside with _ | f
  · simp
  · cases f with
    | trim direction => cases direction <;> simp [trimsAfter,Direction.isRightward]
    | _ => simp [trimsAfter]

theorem any_trimsBefore_iff {beside : Option Fragment} : beside.any trimsBefore = true ↔
    ∃ direction, beside = some (trim direction) ∧ (direction = .left ∨ direction = .both) := by
  rcases beside with _ | f
  · simp
  · cases f with
    | trim direction => cases direction <;> simp [trimsBefore,Direction.isLeftward]
    | _ => simp [trimsBefore]

/-- What stands before place `k` of the fragments that follow `before`. -/
def precedes (before : Option Fragment) (fs : List Fragment) : Nat → Option Fragment
  | 0 => before
  | k + 1 => fs[k]?

/-- The sides on which the fragment at `k` is trimmed by the markers next to it. -/
def sidesAt (fs : List Fragment) (k : Nat) : Sides :=
  ⟨(precedes none fs k).any trimsAfter,fs[k + 1]?.any trimsBefore⟩

theorem getElem?_applyTrimsAfter (before : Option Fragment) (fs : List Fragment) (k : Nat) :
    (applyTrimsAfter before fs)[k]? =
      fs[k]?.map fun f => trimBetween (precedes before fs k) f fs[k + 1]? := by
  induction fs generalizing before k with
  | nil => rfl
  | cons f fs ih =>
    cases k with
    | zero => simp [applyTrimsAfter,precedes,List.head?_eq_getElem?]
    | succ k =>
      have hbefore : precedes (some f) fs k = precedes before (f :: fs) (k + 1) := by
        cases k <;> rfl
      simpa only [applyTrimsAfter,List.getElem?_cons_succ,hbefore] using ih (some f) k

theorem getElem?_applyTrims (fs : List Fragment) (k : Nat) :
    (applyTrims fs)[k]? = fs[k]?.map (mapContent (sidesAt fs k).trim) := by
  rw [applyTrims,getElem?_applyTrimsAfter]
  exact congrArg (Option.map · fs[k]?) (funext fun f => trimBetween_eq _ f _)

theorem length_applyTrimsAfter (before : Option Fragment) (fs : List Fragment) :
    (applyTrimsAfter before fs).length = fs.length := by
  induction fs generalizing before with
  | nil => rfl
  | cons f fs ih => exact congrArg Nat.succ (ih (some f))

theorem emptied_applyTrims (fs : List Fragment) :
    (applyTrims fs).map emptied = fs.map emptied := by
  refine List.ext_getElem? fun k => ?_
  rw [List.getElem?_map,getElem?_applyTrims,List.getElem?_map,Option.map_map]
  exact congrArg (Option.map · fs[k]?) (funext fun f => emptied_mapContent _ f)

/-- Trimming changes no marker, so that each place has the same sides as before. -/
theorem sidesAt_applyTrims (fs : List Fragment) (k : Nat) :
    sidesAt (applyTrims fs) k = sidesAt fs k := by
  have hafter : ∀ j : Nat, (applyTrims fs)[j]?.any trimsAfter = fs[j]?.any trimsAfter := by
    intro j
    rw [getElem?_applyTrims,Option.any_map,funext (trimsAfter_mapContent _)]
  have hbefore : ∀ j : Nat, (applyTrims fs)[j]?.any trimsBefore = fs[j]?.any trimsBefore := by
    intro j
    rw [getElem?_applyTrims,Option.any_map,funext (trimsBefore_mapContent _)]
  unfold sidesAt
  cases k with
  | zero => rw [hbefore]; rfl
  | succ k => rw [hbefore,precedes,hafter]; rfl

theorem applyTrims_applyTrims (fs : List Fragment) : applyTrims (applyTrims fs) = applyTrims fs := by
  refine List.ext_getElem? fun k => ?_
  rw [getElem?_applyTrims,getElem?_applyTrims,sidesAt_applyTrims,Option.map_map]
  refine congrArg (Option.map · fs[k]?) (funext fun f => ?_)
  rw [Function.comp_apply,mapContent_mapContent]
  exact congrArg (mapContent · f) (funext fun t => Sides.trim_trim _ t)

/-- Lets the fragment at `i`, if it is a trim marker, work on what now stands beside it. -/
def trimAround (fs : List Fragment) (i : Nat) : List Fragment :=
  match fs[i]? with
  | some (trim direction) =>
    let fs :=
      if direction.isLeftward ∧ 0 < i then fs.modify (i - 1) (mapContent Text.trimEnd) else fs
    if direction.isRightward then fs.modify (i + 1) (mapContent Text.trimStart) else fs
  | _ => fs

/-- Lets every trim marker work in turn, from the first on. -/
def trimInTurn (fs : List Fragment) : List Fragment := (List.range fs.length).foldl trimAround fs

theorem getElem?_modify_if (b : Prop) [Decidable b] (fs : List Fragment) (i k : Nat)
    (g : Fragment → Fragment) :
    (if b then fs.modify i g else fs)[k]? = fs[k]?.map fun f => if b ∧ i = k then g f else f := by
  by_cases hb : b
  · simp [hb,List.getElem?_modify]
  · simp [hb]

theorem getElem?_trimAround (fs : List Fragment) (i k : Nat) :
    (trimAround fs i)[k]? = fs[k]?.map (mapContent (Sides.trim
      ⟨decide (k = i + 1) && fs[i]?.any trimsAfter,decide (k + 1 = i) && fs[i]?.any trimsBefore⟩)) := by
  unfold trimAround
  split
  · next direction h =>
    simp only [h,Option.any_some,trimsAfter,trimsBefore,getElem?_modify_if,Option.map_map]
    refine congrArg (Option.map · fs[k]?) (funext fun f => ?_)
    simp only [Function.comp_apply]
    rcases eq_or_ne k (i + 1) with rfl | hk
    · have hbefore : decide (i + 1 + 1 = i) = false := decide_eq_false (by omega)
      have hbefore' : ¬i - 1 = i + 1 := by omega
      simp only [hbefore,hbefore',and_false,if_false,and_true,decide_true,Bool.true_and,Bool.false_and]
      cases direction.isRightward
      · exact (mapContent_neither f).symm
      · rfl
    · have hafter : decide (k = i + 1) = false := decide_eq_false hk
      have hafter' : ¬i + 1 = k := Ne.symm hk
      have hplace : 0 < i ∧ i - 1 = k ↔ k + 1 = i := by omega
      simp only [hafter,hafter',and_false,if_false,Bool.false_and,and_assoc,hplace]
      cases direction.isLeftward <;> by_cases hk' : k + 1 = i <;> simp [hk'] <;> cases f <;> rfl
  · next h =>
    have hneither : fs[i]?.any trimsAfter = false ∧ fs[i]?.any trimsBefore = false :=
      trims_eq_false_of_ne h
    rw [hneither.1,hneither.2,Bool.and_false,Bool.and_false]
    cases fs[k]? with
    | none => rfl
    | some f => exact congrArg some (mapContent_neither f).symm

/-- The sides on which the first `n` fragments trim the one at `k`. -/
def sidesBelow (n : Nat) (fs : List Fragment) (k : Nat) : Sides :=
  ⟨decide (k ≤ n) && (sidesAt fs k).start,decide (k + 1 < n) && (sidesAt fs k).stop⟩

/-- The fragment at `n` adds its own side: behind it nothing is trimmed yet, and before it nothing
at the end. -/
theorem trim_sidesBelow (n : Nat) (fs : List Fragment) (k : Nat) (t : Text) :
    Sides.trim ⟨decide (k = n + 1) && fs[n]?.any trimsAfter,decide (k + 1 = n) && fs[n]?.any trimsBefore⟩
      ((sidesBelow n fs k).trim t) = (sidesBelow (n + 1) fs k).trim t := by
  rcases eq_or_ne k (n + 1) with rfl | hafter
  · have hle : decide (n + 1 ≤ n) = false := decide_eq_false (by omega)
    have hlt : decide (n + 1 + 1 < n) = false := decide_eq_false (by omega)
    have hlt' : decide (n + 1 + 1 < n + 1) = false := decide_eq_false (by omega)
    have heq : decide (n + 1 + 1 = n) = false := decide_eq_false (by omega)
    simp only [sidesBelow,sidesAt,precedes,hle,hlt,hlt',heq,Nat.le_refl,decide_true,Bool.true_and,
      Bool.false_and]
    rfl
  have hafter' : decide (k = n + 1) = false := decide_eq_false hafter
  have hle : decide (k ≤ n) = decide (k ≤ n + 1) := decide_eq_decide.mpr (by omega)
  rcases eq_or_ne (k + 1) n with rfl | hbefore
  · have hlt : decide (k + 1 < k + 1) = false := decide_eq_false (by omega)
    have hlt' : decide (k + 1 < k + 1 + 1) = true := decide_eq_true (by omega)
    simp only [sidesBelow,sidesAt,hafter',hle,hlt,hlt',decide_true,Bool.true_and,Bool.false_and]
    rfl
  · have hbefore' : decide (k + 1 = n) = false := decide_eq_false hbefore
    have hlt : decide (k + 1 < n) = decide (k + 1 < n + 1) := decide_eq_decide.mpr (by omega)
    simp only [sidesBelow,hafter',hbefore',hle,hlt,Bool.false_and]
    rfl

theorem getElem?_foldl_trimAround (fs : List Fragment) (n k : Nat) :
    ((List.range n).foldl trimAround fs)[k]? = fs[k]?.map (mapContent (sidesBelow n fs k).trim) := by
  induction n generalizing k with
  | zero =>
    have hneither : sidesBelow 0 fs k = .neither := by
      cases k <;> simp [sidesBelow,sidesAt,precedes,Sides.neither]
    rw [hneither,funext mapContent_neither,Option.map_id']
    rfl
  | succ n ih =>
    have hafter : ((List.range n).foldl trimAround fs)[n]?.any trimsAfter = fs[n]?.any trimsAfter := by
      rw [ih,Option.any_map,funext (trimsAfter_mapContent _)]
    have hbefore : ((List.range n).foldl trimAround fs)[n]?.any trimsBefore = fs[n]?.any trimsBefore := by
      rw [ih,Option.any_map,funext (trimsBefore_mapContent _)]
    rw [List.range_succ,List.foldl_append,List.foldl_cons,List.foldl_nil,getElem?_trimAround,ih k,
      hafter,hbefore,Option.map_map]
    refine congrArg (Option.map · fs[k]?) (funext fun f => ?_)
    rw [Function.comp_apply,mapContent_mapContent]
    exact congrArg (mapContent · f) (funext fun t => trim_sidesBelow n fs k t)

theorem trimInTurn_eq_applyTrims (fs : List Fragment) : trimInTurn fs = applyTrims fs := by
  refine List.ext_getElem? fun k => ?_
  rw [trimInTurn,getElem?_foldl_trimAround,getElem?_applyTrims]
  by_cases hk : k < fs.length
  · have hstop : (decide (k + 1 < fs.length) && (sidesAt fs k).stop) = (sidesAt fs k).stop := by
      by_cases hlast : k + 1 < fs.length
      · rw [decide_eq_true hlast,Bool.true_and]
      · rw [decide_eq_false hlast,sidesAt,List.getElem?_eq_none (by omega)]
        rfl
    rw [sidesBelow,decide_eq_true (by omega),Bool.true_and,hstop]
  · rw [List.getElem?_eq_none (by omega)]
    rfl

/-- Trimming changes contents alone: each fragment loses the blanks at its start if and only if a
marker for what follows it stands right before it, and those at its end if and only if a marker for
what precedes it stands right behind it. Trimming again changes nothing, and markers that work in
turn, on contents which earlier ones have changed, come to the same. -/
theorem applyTrims_beside (fs : List Fragment) :
    (applyTrims fs).length = fs.length ∧ (applyTrims fs).map emptied = fs.map emptied ∧
      (∀ k : Nat, ∃ sides : Sides,
        (sides.start = true ↔ ∃ j direction, k = j + 1 ∧ fs[j]? = some (trim direction) ∧
          (direction = .right ∨ direction = .both)) ∧
        (sides.stop = true ↔ ∃ direction, fs[k + 1]? = some (trim direction) ∧
          (direction = .left ∨ direction = .both)) ∧
        (applyTrims fs)[k]?.map content = fs[k]?.map fun f => sides.trim f.content) ∧
      applyTrims (applyTrims fs) = applyTrims fs ∧ trimInTurn fs = applyTrims fs := by
  refine ⟨length_applyTrimsAfter none fs,emptied_applyTrims fs,fun k => ⟨sidesAt fs k,?_,?_,?_⟩,
    applyTrims_applyTrims fs,trimInTurn_eq_applyTrims fs⟩
  · cases k with
    | zero => simp [sidesAt,precedes]
    | succ k => simp [sidesAt,precedes,any_trimsAfter_iff]
  · exact any_trimsBefore_iff
  · rw [getElem?_applyTrims,Option.map_map]
    exact congrArg (Option.map · fs[k]?) (funext (content_mapContent (Sides.trim_nil _)))

end Fragment

end Stencil

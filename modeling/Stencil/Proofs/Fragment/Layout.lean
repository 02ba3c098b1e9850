import Stencil.Fragment.Output

/-! # Printed values in the output

The output of a list of fragments is a layout with a slot for every printed value. The
text between the slots does not depend on what is printed, and a slot trims its value on
the sides where a marker stands next to it, and nowhere else.
-/
namespace Stencil

/-- The sides on which a text loses its blanks. -/
structure Sides where
  start : Bool
  stop : Bool
  deriving DecidableEq, Repr

namespace Sides

def neither : Sides := ⟨false,false⟩

def trim (sides : Sides) (t : Text) : Text :=
  let t := if sides.start then t.trimStart else t
  if sides.stop then t.trimEnd else t

end Sides

/-- A text with slots: what stands before the first one, and for each slot the sides on
which it trims and the text behind it. -/
structure Layout where
  head : Text
  slots : List (Sides × Text)

namespace Layout

/-- The text with a value in every slot. -/
def fill (layout : Layout) (vs : List Text) : Text :=
  layout.head ++ (List.zipWith (fun slot v => slot.1.trim v ++ slot.2) layout.slots vs).flatten

def empty : Layout := ⟨[],[]⟩

/-- Puts a text in front. -/
def withText (t : Text) (layout : Layout) : Layout := ⟨t ++ layout.head,layout.slots⟩

/-- Puts a slot in front. -/
def withSlot (sides : Sides) (layout : Layout) : Layout := ⟨[],(sides,layout.head) :: layout.slots⟩

theorem fill_withText (t : Text) (layout : Layout) (vs : List Text) :
    (layout.withText t).fill vs = t ++ layout.fill vs := by
  unfold fill withText
  rw [List.append_assoc]

theorem fill_withSlot (sides : Sides) (layout : Layout) (v : Text) (vs : List Text) :
    (layout.withSlot sides).fill (v :: vs) = sides.trim v ++ layout.fill vs := by
  unfold fill withSlot
  rw [List.zipWith_cons_cons,List.flatten_cons,List.nil_append,List.append_assoc]

end Layout

namespace Fragment

/-- What the values among the fragments hold, in order. -/
def values : List Fragment → List Text
  | [] => []
  | value t :: fs => t :: values fs
  | string _ :: fs => values fs
  | trim _ :: fs => values fs
  | conf _ _ :: fs => values fs

/-- The same fragments with `vs` for what the values hold. -/
def refill : List Fragment → List Text → List Fragment
  | [], _ => []
  | value t :: fs, vs => value (vs.headD t) :: refill fs vs.tail
  | string t :: fs, vs => string t :: refill fs vs
  | trim direction :: fs, vs => trim direction :: refill fs vs
  | conf key setting :: fs, vs => conf key setting :: refill fs vs

theorem values_refill {fs : List Fragment} {vs : List Text} (h : vs.length = (values fs).length) :
    values (refill fs vs) = vs := by
  induction fs generalizing vs with
  | nil => exact (List.length_eq_zero_iff.mp h).symm
  | cons f fs ih =>
    cases f with
    | value t =>
      cases vs with
      | nil => cases h
      | cons v vs => exact congrArg (v :: ·) (ih (Nat.succ.inj h))
    | _ => exact ih h

theorem isEmpty_refill (fs : List Fragment) (vs : List Text) : (refill fs vs).isEmpty = fs.isEmpty := by
  cases fs with
  | nil => rfl
  | cons f fs => cases f <;> rfl

theorem head_trimsBefore_refill (fs : List Fragment) (vs : List Text) :
    (refill fs vs).head?.any trimsBefore = fs.head?.any trimsBefore := by
  cases fs with
  | nil => rfl
  | cons f fs => cases f <;> rfl

theorem merge_cons (f : Fragment) (fs : List Fragment) : merge (f :: fs) = mergeCons f (merge fs) := rfl

theorem values_mergeCons (f : Fragment) (fs : List Fragment) :
    values (mergeCons f fs) = values (f :: fs) := by
  unfold mergeCons
  split <;> rfl

theorem values_merge (fs : List Fragment) : values (merge fs) = values fs := by
  induction fs with
  | nil => rfl
  | cons f fs ih =>
    rw [merge_cons,values_mergeCons]
    cases f with
    | value t => exact congrArg (t :: ·) ih
    | _ => exact ih

theorem merge_refill (fs : List Fragment) (vs : List Text) :
    merge (refill fs vs) = refill (merge fs) vs := by
  induction fs generalizing vs with
  | nil => rfl
  | cons f fs ih =>
    cases f with
    | value t => exact congrArg (value (vs.headD t) :: ·) (ih vs.tail)
    | trim direction => exact congrArg (trim direction :: ·) (ih vs)
    | conf key setting => exact congrArg (conf key setting :: ·) (ih vs)
    | string s =>
      -- a string is joined to what comes first in the rest, which is a string in both or in neither
      rw [refill,merge_cons,merge_cons,ih]
      cases merge fs with
      | nil => rfl
      | cons g gs => cases g <;> rfl

theorem trimBetween_eq (before : Option Fragment) (f : Fragment) (after : Option Fragment) :
    trimBetween before f after =
      f.mapContent (Sides.trim ⟨before.any trimsAfter,after.any trimsBefore⟩) := by
  unfold trimBetween
  cases before.any trimsAfter <;> cases after.any trimsBefore <;> cases f <;> rfl

theorem isEmpty_applyTrimsAfter (before : Option Fragment) (fs : List Fragment) :
    (applyTrimsAfter before fs).isEmpty = fs.isEmpty := by
  cases fs <;> rfl

/-- The layout of fragments that are joined already. `trimmed` says whether a marker before
them trims what comes first. -/
def layoutAfter (mode : SquashMode) (isFirst trimmed : Bool) : List Fragment → Layout
  | [] => .empty
  | string t :: fs =>
    (layoutAfter mode false false fs).withText
      (settleString mode isFirst fs.isEmpty (Sides.trim ⟨trimmed,fs.head?.any trimsBefore⟩ t))
  | value _ :: fs =>
    (layoutAfter mode false false fs).withSlot ⟨trimmed,fs.head?.any trimsBefore⟩
  | trim direction :: fs => layoutAfter mode false direction.isRightward fs
  | conf key setting :: fs => layoutAfter ((confMode? key setting).getD mode) false false fs

theorem flatten_pieces (mode : SquashMode) (isFirst : Bool) (before : Option Fragment)
    (fs : List Fragment) : (pieces mode isFirst (applyTrimsAfter before fs)).flatten =
      (layoutAfter mode isFirst (before.any trimsAfter) fs).fill (values fs) := by
  induction fs generalizing mode isFirst before with
  | nil => rfl
  | cons f fs ih =>
    rw [applyTrimsAfter,trimBetween_eq]
    cases f with
    | string t =>
      rw [mapContent,pieces,List.flatten_cons,isEmpty_applyTrimsAfter,ih,layoutAfter,
        Layout.fill_withText]
      rfl
    | value t =>
      rw [mapContent,pieces,List.flatten_cons,ih,layoutAfter,values,Layout.fill_withSlot]
      rfl
    | trim direction => exact ih mode false (some (trim direction))
    | conf key setting => exact ih _ false (some (conf key setting))

theorem layoutAfter_refill (mode : SquashMode) (isFirst trimmed : Bool) (fs : List Fragment)
    (vs : List Text) :
    layoutAfter mode isFirst trimmed (refill fs vs) = layoutAfter mode isFirst trimmed fs := by
  induction fs generalizing mode isFirst trimmed vs with
  | nil => rfl
  | cons f fs ih =>
    cases f with
    | string t =>
      rw [refill,layoutAfter,layoutAfter,ih,isEmpty_refill,head_trimsBefore_refill]
    | value t => rw [refill,layoutAfter,layoutAfter,ih,head_trimsBefore_refill]
    | trim direction => exact ih mode false direction.isRightward vs
    | conf key setting => exact ih _ false false vs

/-- The sides on which each value is trimmed by the markers next to it. -/
def sidesAfter (trimmed : Bool) : List Fragment → List Sides
  | [] => []
  | value _ :: fs => ⟨trimmed,fs.head?.any trimsBefore⟩ :: sidesAfter false fs
  | string _ :: fs => sidesAfter false fs
  | trim direction :: fs => sidesAfter direction.isRightward fs
  | conf _ _ :: fs => sidesAfter false fs

theorem slots_layoutAfter (mode : SquashMode) (isFirst trimmed : Bool) (fs : List Fragment) :
    (layoutAfter mode isFirst trimmed fs).slots.map Prod.fst = sidesAfter trimmed fs := by
  induction fs generalizing mode isFirst trimmed with
  | nil => rfl
  | cons f fs ih =>
    cases f with
    | string t => exact ih mode false false
    | value t => exact congrArg (_ :: ·) (ih mode false false)
    | trim direction => exact ih mode false direction.isRightward
    | conf key setting => exact ih _ false false

theorem length_sidesAfter (trimmed : Bool) (fs : List Fragment) :
    (sidesAfter trimmed fs).length = (values fs).length := by
  induction fs generalizing trimmed with
  | nil => rfl
  | cons f fs ih =>
    cases f with
    | value t => exact congrArg Nat.succ (ih false)
    | _ => exact ih _

theorem head_trimsBefore_merge (fs : List Fragment) :
    (merge fs).head?.any trimsBefore = fs.head?.any trimsBefore := by
  cases fs with
  | nil => rfl
  | cons f fs =>
    rw [merge_cons]
    unfold mergeCons
    split <;> rfl

theorem sidesAfter_merge (trimmed : Bool) (fs : List Fragment) :
    sidesAfter trimmed (merge fs) = sidesAfter trimmed fs := by
  induction fs generalizing trimmed with
  | nil => rfl
  | cons f fs ih =>
    cases f with
    | value t =>
      rw [merge_cons]
      change _ :: sidesAfter false (merge fs) = _ :: sidesAfter false fs
      rw [head_trimsBefore_merge,ih]
    | trim direction => exact ih direction.isRightward
    | conf key setting => exact ih false
    | string s =>
      rw [merge_cons,sidesAfter,← ih]
      cases merge fs with
      | nil => rfl
      | cons g gs => cases g <;> rfl

theorem sidesAfter_append (trimmed : Bool) (before : List Fragment) (t : Text)
    (after : List Fragment) :
    (sidesAfter trimmed (before ++ value t :: after))[(values before).length]? =
      some ⟨(before.getLast?.map trimsAfter).getD trimmed,after.head?.any trimsBefore⟩ := by
  induction before generalizing trimmed with
  | nil => rfl
  | cons f before ih =>
    have hlast : ((f :: before).getLast?.map trimsAfter).getD trimmed =
        (before.getLast?.map trimsAfter).getD f.trimsAfter := by
      rw [List.getLast?_cons,Option.map_some,Option.getD_some,Option.getD_map]
    rw [hlast]
    cases f with
    | value s => exact ih false
    | string s => exact ih false
    | trim direction => exact ih direction.isRightward
    | conf key setting => exact ih false

theorem getD_trimsAfter (before : Option Fragment) :
    (before.map trimsAfter).getD false = before.any trimsAfter := by
  cases before <;> rfl

theorem trims_eq_false_of_ne {beside : Option Fragment}
    (h : ∀ direction, beside ≠ some (trim direction)) :
    beside.any trimsAfter = false ∧ beside.any trimsBefore = false := by
  rcases beside with _ | f
  · exact ⟨rfl,rfl⟩
  · cases f with
    | trim direction => exact absurd rfl (h direction)
    | _ => exact ⟨rfl,rfl⟩

/-- Where line ends are left alone, the output of fragments is one layout whatever the values
hold. A slot trims its value on just those sides where the marker next to it works that way,
so that a value without a marker next to it comes out as it is. -/
theorem output_layout (options : Options) (h : options.trimEndLine = false) (fs : List Fragment) :
    ∃ layout : Layout, layout.slots.length = (values fs).length ∧
      (∀ vs : List Text, vs.length = (values fs).length →
        output options (refill fs vs) = layout.fill vs) ∧
      ∀ before t after, fs = before ++ value t :: after →
        ∃ sides s, layout.slots[(values before).length]? = some (sides,s) ∧
          sides = ⟨before.getLast?.any trimsAfter,after.head?.any trimsBefore⟩ ∧
          ((∀ direction, before.getLast? ≠ some (trim direction)) →
            (∀ direction, after.head? ≠ some (trim direction)) → sides = .neither) := by
  let layout := layoutAfter options.squash true false (merge fs)
  have hsides : layout.slots.map Prod.fst = sidesAfter false fs := by
    rw [slots_layoutAfter,sidesAfter_merge]
  refine ⟨layout,?_,?_,?_⟩
  · rw [← length_sidesAfter false,← hsides,List.length_map]
  · intro vs hvs
    have hmerged : vs.length = (values (merge fs)).length := by rw [values_merge,hvs]
    unfold output
    rw [if_neg (by simp [h]),merge_refill,applyTrims,flatten_pieces,values_refill hmerged]
    exact congrArg (Layout.fill · vs) (layoutAfter_refill _ _ _ _ _)
  · rintro before t after rfl
    have hslot := sidesAfter_append false before t after
    rw [← hsides,List.getElem?_map,getD_trimsAfter] at hslot
    obtain ⟨⟨sides,s⟩,hs,rfl⟩ := Option.map_eq_some_iff.mp hslot
    refine ⟨_,s,hs,rfl,fun hbefore hafter => ?_⟩
    rw [(trims_eq_false_of_ne hbefore).1,(trims_eq_false_of_ne hafter).2]
    rfl

theorem output_layout_of_marker : ∃ layout : Layout, layout.slots.length = 2 ∧
    (∀ v w : Text, output ⟨false,.on,100⟩
      [.value v,.string " a  b ".toList,.trim .both,.value w] = layout.fill [v,w]) ∧
    (∃ s, layout.slots[0]? = some (.neither,s)) ∧ ∃ s, layout.slots[1]? = some (⟨true,false⟩,s) := by
  obtain ⟨layout,hlength,hfill,hsides⟩ := output_layout ⟨false,.on,100⟩ rfl
    [.value [],.string " a  b ".toList,.trim .both,.value []]
  refine ⟨layout,hlength,fun v w => hfill [v,w] rfl,?_,?_⟩
  · obtain ⟨sides,s,hs,_,hneither⟩ := hsides [] [] _ rfl
    refine ⟨s,hs.trans ?_⟩
    rw [hneither (by simp) (by simp)]
  · obtain ⟨sides,s,hs,hmarker,_⟩ :=
      hsides [.value [],.string " a  b ".toList,.trim .both] [] [] rfl
    exact ⟨s,hs.trans (by rw [hmarker]; rfl)⟩

end Fragment

end Stencil

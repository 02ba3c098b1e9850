import Stencil.Fragment.Output

/-! # Visible characters

Settling the output of a template is about blanks alone. Each pass over the fragments
(joining strings, trimming beside markers, squashing, trimming at the edges, stripping
line ends) keeps the characters that are not blank, and their order.
-/
namespace Stencil

namespace Text

/-- What is left of a text without its blanks. -/
def visible (t : Text) : Text := t.filter (!isBlank ·)

@[simp] theorem visible_nil : visible [] = [] := rfl

@[simp] theorem visible_append (s t : Text) : (s ++ t).visible = s.visible ++ t.visible :=
  List.filter_append s t

theorem visible_cons_blank {c : Char} (hc : isBlank c = true) (t : Text) :
    visible (c :: t) = t.visible := by
  simp [visible,hc]

theorem visible_cons (c : Char) (t : Text) : visible (c :: t) = visible [c] ++ t.visible :=
  visible_append [c] t

theorem visible_trimStart (t : Text) : t.trimStart.visible = t.visible := by
  induction t with
  | nil => rfl
  | cons c t ih =>
    by_cases hc : isBlank c = true
    · rw [visible_cons_blank hc,← ih,trimStart,List.dropWhile_cons,if_pos hc]
      rfl
    · rw [trimStart,List.dropWhile_cons,if_neg hc]

/-- The end of a text is the start of the text read backwards. -/
theorem visible_trimEnd (t : Text) : t.trimEnd.visible = t.visible := by
  have h := congrArg List.reverse (visible_trimStart t.reverse)
  simpa only [visible,trimStart,trimEnd,List.filter_reverse,List.reverse_reverse] using h

namespace BlankRun

/-- A run holds nothing but a blank, if it holds a character at all. -/
def IsBlank : BlankRun → Prop
  | .empty => True
  | .single c => isBlank c = true
  | .many => True

theorem isBlank_push {c : Char} (hc : isBlank c = true) (run : BlankRun) : (run.push c).IsBlank := by
  cases run with
  | empty => exact hc
  | single _ => trivial
  | many => trivial

theorem visible_settle {run : BlankRun} (h : run.IsBlank) : run.settle.visible = [] := by
  cases run with
  | empty => rfl
  | single c =>
    by_cases hc : c = '\n'
    · rw [settle,if_pos hc,visible_nil]
    · rw [settle,if_neg hc,visible_cons_blank h,visible_nil]
  | many => exact visible_cons_blank isBlank_space []

end BlankRun

theorem visible_squashAfter (t : Text) {run : BlankRun} (h : run.IsBlank) :
    (squashAfter run t).visible = t.visible := by
  induction t generalizing run with
  | nil => exact BlankRun.visible_settle h
  | cons c t ih =>
    unfold squashAfter
    by_cases hc : isBlank c = true
    · rw [if_pos hc,ih (BlankRun.isBlank_push hc run),visible_cons_blank hc]
    · have hrest : visible (squashAfter .empty t) = visible t := @ih .empty trivial
      rw [if_neg hc,visible_append,BlankRun.visible_settle h,List.nil_append,visible_cons,hrest,
        ← visible_cons]

theorem visible_squash (t : Text) : t.squash.visible = t.visible :=
  visible_squashAfter t trivial

theorem visible_stripLineEnds (t : Text) : t.stripLineEnds.visible = t.visible := by
  induction t with
  | nil => rfl
  | cons c t ih =>
    unfold stripLineEnds
    by_cases h : c = ' ' ∧ (stripLineEnds t).head? = some '\n'
    · rw [if_pos h,ih,h.1,visible_cons_blank isBlank_space]
    · rw [if_neg h,visible_cons,ih,← visible_cons]

end Text

namespace Fragment
open Text

def contents (fs : List Fragment) : Text := fs.flatMap content

theorem contents_cons (f : Fragment) (fs : List Fragment) :
    contents (f :: fs) = f.content ++ contents fs := List.flatMap_cons

theorem contents_mergeCons (f : Fragment) (fs : List Fragment) :
    contents (mergeCons f fs) = f.content ++ contents fs := by
  unfold mergeCons
  split
  · simp only [contents_cons,content,List.append_assoc]
  · exact contents_cons f fs

theorem contents_merge (fs : List Fragment) : contents (merge fs) = contents fs := by
  induction fs with
  | nil => rfl
  | cons f fs ih => rw [merge,List.foldr_cons,contents_mergeCons,← merge,ih,contents_cons]

theorem visible_mapContent {g : Text → Text} (hg : ∀ t, (g t).visible = t.visible) (f : Fragment) :
    (f.mapContent g).content.visible = f.content.visible := by
  cases f with
  | string t => exact hg t
  | value t => exact hg t
  | _ => rfl

theorem visible_trimBetween (before : Option Fragment) (f : Fragment) (after : Option Fragment) :
    (trimBetween before f after).content.visible = f.content.visible := by
  have hstart := visible_mapContent visible_trimStart f
  unfold trimBetween
  by_cases hb : before.any trimsAfter = true <;> by_cases ha : after.any trimsBefore = true
  · rw [if_pos hb,if_pos ha,visible_mapContent visible_trimEnd,hstart]
  · rw [if_pos hb,if_neg ha,hstart]
  · rw [if_neg hb,if_pos ha,visible_mapContent visible_trimEnd]
  · rw [if_neg hb,if_neg ha]

theorem visible_applyTrimsAfter (before : Option Fragment) (fs : List Fragment) :
    (contents (applyTrimsAfter before fs)).visible = (contents fs).visible := by
  induction fs generalizing before with
  | nil => rfl
  | cons f fs ih =>
    rw [applyTrimsAfter,contents_cons,contents_cons,visible_append,visible_append,
      visible_trimBetween,ih]

theorem visible_settleString (mode : SquashMode) (isFirst isLast : Bool) (t : Text) :
    (settleString mode isFirst isLast t).visible = t.visible := by
  have hsquash : (if mode = .on then t.squash else t).visible = t.visible := by
    split
    · exact visible_squash t
    · rfl
  unfold settleString
  cases isFirst <;> cases isLast <;> simp only [visible_trimStart,visible_trimEnd,hsquash,
    Bool.false_eq_true,if_true,if_false]

theorem visible_pieces (mode : SquashMode) (isFirst : Bool) (fs : List Fragment) :
    visible (pieces mode isFirst fs).flatten = (contents fs).visible := by
  induction fs generalizing mode isFirst with
  | nil => rfl
  | cons f fs ih =>
    rw [contents_cons,visible_append]
    cases f with
    | string t =>
      rw [pieces,List.flatten_cons,visible_append,visible_settleString,ih]
      rfl
    | value t =>
      rw [pieces,List.flatten_cons,visible_append,ih]
      rfl
    | trim direction => exact ih mode false
    | conf key setting => exact ih _ false

/-- Whatever the options, the output holds the visible characters of the strings and values,
all of them and in their order. -/
theorem visible_output (options : Options) (fs : List Fragment) :
    (output options fs).visible = (contents fs).visible := by
  have hsettled : visible (pieces options.squash true (applyTrims (merge fs))).flatten =
      (contents fs).visible := by
    rw [visible_pieces,applyTrims,visible_applyTrimsAfter,contents_merge]
  unfold output
  by_cases h : options.trimEndLine = true
  · rw [if_pos h,visible_stripLineEnds,hsettled]
  · rw [if_neg h,hsettled]

end Fragment

end Stencil

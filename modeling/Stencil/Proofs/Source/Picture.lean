import Mathlib.Data.List.Basic
import Stencil.Proofs.Source.Line
import Stencil.Proofs.Text.Search

/-! # What a picture shows

The picture of a place shows the line of that place among the lines of the text, and has its first
caret under the character that stands there: under a newline, and at the end of the text, that is
the place right behind the line.
-/
namespace Stencil

/-- Lines one below the other, each with its newline. -/
def Text.unlines (lines : List Text) : Text := (lines.map (· ++ ['\n'])).flatten

theorem Text.unlines_cons (line : Text) (lines : List Text) :
    unlines (line :: lines) = line ++ '\n' :: unlines lines := by
  simp [unlines]

theorem Text.intercalate_concat (lines : List Text) (last : Text) :
    ['\n'].intercalate (lines ++ [last]) = unlines lines ++ last := by
  induction lines with
  | nil => simp [unlines]
  | cons line lines ih =>
    have hcons : ['\n'].intercalate (line :: (lines ++ [last])) =
        line ++ '\n' :: ['\n'].intercalate (lines ++ [last]) := by
      cases lines <;> simp
    rw [List.cons_append,hcons,ih,unlines_cons,List.append_assoc,List.cons_append]

namespace Source

/-- The lines of a text are those above a place where a line begins, then those of the rest. -/
theorem splitOn_unlines {lines : List Text} (h : ∀ line ∈ lines, '\n' ∉ line) (t : Text) :
    (Text.unlines lines ++ t).splitOn '\n' = lines ++ t.splitOn '\n' := by
  induction lines with
  | nil => rfl
  | cons line lines ih =>
    obtain ⟨hline,hlines⟩ := List.forall_mem_cons.mp h
    rw [Text.unlines_cons,List.append_assoc,List.cons_append,
      List.splitOn_append_cons_self_of_not_mem hline,ih hlines,List.cons_append]

theorem count_unlines {lines : List Text} (h : ∀ line ∈ lines, '\n' ∉ line) :
    (Text.unlines lines).count '\n' = lines.length := by
  induction lines with
  | nil => rfl
  | cons line lines ih =>
    obtain ⟨hline,hlines⟩ := List.forall_mem_cons.mp h
    rw [Text.unlines_cons,List.count_append,List.count_cons_self,ih hlines,
      List.count_eq_zero_of_not_mem hline,List.length_cons]
    omega

/-- What ends where a line begins is lines with their newlines. -/
theorem exists_unlines {above : Text} (h : ∀ x ∈ above.getLast?, x = '\n') :
    ∃ lines, above = Text.unlines lines ∧ ∀ line ∈ lines, '\n' ∉ line := by
  obtain ⟨pieces,hne,hjoin,hpieces⟩ := Text.exists_pieces '\n' above
  obtain ⟨lines,last,rfl⟩ := (List.eq_nil_or_concat' pieces).resolve_left hne
  rw [Text.intercalate_concat] at hjoin
  have hlast : last = [] := by
    cases hend : last.getLast? with
    | none => exact List.getLast?_eq_none_iff.mp hend
    | some x =>
      have hx : x = '\n' := h x (by simp [hjoin,hend])
      have hmem : x ∈ last := List.mem_of_getLast? hend
      exact absurd (hx ▸ hmem) (hpieces last (by simp))
  rw [hlast,List.append_nil] at hjoin
  exact ⟨lines,hjoin,fun line hline => hpieces line (List.mem_append_left _ hline)⟩

/-- A line that is not followed by more of it is the first one. -/
theorem exists_splitOn_cons {line below : Text} (h : '\n' ∉ line) (hbelow : ∀ x ∈ below.head?, x = '\n') :
    ∃ more, (line ++ below).splitOn '\n' = line :: more := by
  cases below with
  | nil =>
    rw [List.append_nil]
    exact ⟨[],List.splitOn_eq_singleton h⟩
  | cons x below =>
    obtain rfl : x = '\n' := hbelow x rfl
    exact ⟨_,List.splitOn_append_cons_self_of_not_mem h below⟩

/-- The offset at which the line with the number `row` begins. -/
def lineStart (source : Text) (row : Nat) : Nat :=
  (Text.unlines ((source.splitOn '\n').take (row - 1))).length

/-- Above the line of a place are as many lines as its row says, and its column says how much of
the line stands before the place. -/
theorem Line.numbered {source above before after below : Text} {offset : Nat}
    (h : Line source offset above before after below) : ∃ upper lower,
    source.splitOn '\n' = upper ++ (before ++ after) :: lower ∧ above.count '\n' = upper.length ∧
      (Text.unlines upper).length + before.length = offset := by
  obtain ⟨upper,rfl,hupper⟩ := exists_unlines h.begins
  obtain ⟨lower,hlower⟩ := exists_splitOn_cons h.single h.ends
  refine ⟨upper,lower,?_,count_unlines hupper,h.place⟩
  rw [h.whole,splitOn_unlines hupper,hlower]

/-- The line of a place among the lines of the text, and how far into it the place lies. -/
theorem exists_numbered {source : Text} {offset : Nat} (h : offset ≤ source.length) :
    ∃ upper lower, source.splitOn '\n' = upper ++ lineAt source offset :: lower ∧
      position source offset = ⟨upper.length + 1,(lineBefore source offset).length + 1⟩ ∧
      (Text.unlines upper).length + (lineBefore source offset).length = offset := by
  obtain ⟨above,below,hline,hplace⟩ := exists_line h
  obtain ⟨upper,lower,hlines,hcount,hstart⟩ := hline.numbered
  rw [hcount] at hplace
  exact ⟨upper,lower,hlines,hplace,hstart⟩

theorem offsetBy_le (source : Text) (offset : Nat) (shift : Int) :
    offsetBy source offset shift ≤ source.length := Nat.min_le_right _ _

/-- Wherever a message is about, also in front of the text or behind it, the place is one in the
text, and the picture tells its row and column, shows the line with that row as it stands among
the lines of the text, and has its carets, one at least, from the place on. -/
theorem picture_shows_line (source : Text) (offset : Nat) (shift width : Int) (message : Text) :
    let target := offsetBy source offset shift
    let place := position source target
    let lines := source.splitOn '\n'
    (target : Int) = max 0 (min (offset + shift) source.length) ∧
    1 ≤ place.row ∧ place.row ≤ lines.length ∧ 1 ≤ place.column ∧
    ∃ line, lines[place.row - 1]? = some line ∧ place.column - 1 ≤ line.length ∧
      lineStart source place.row + (place.column - 1) = target ∧
      picture source target width.toNat message =
        message ++ " at position ".toList ++ natText place.row ++ ':' :: natText place.column ++
          ":\n\n".toList ++ line ++ '\n' :: List.replicate (place.column - 1) ' ' ++
          List.replicate (max width 1).toNat '^' ++ " - ".toList ++ message := by
  intro target place lines
  have hclamped : (target : Int) = max 0 (min (offset + shift) source.length) := by
    change ((min (offset + shift).toNat source.length : Nat) : Int) = _
    omega
  obtain ⟨upper,lower,hlines,hplace,hstart⟩ := exists_numbered (offsetBy_le source offset shift)
  have hrow : place.row = upper.length + 1 := congrArg Position.row hplace
  have hcolumn : place.column - 1 = (lineBefore source target).length :=
    congrArg (fun place => place.column - 1) hplace
  have hlength : lines.length = upper.length + (lower.length + 1) :=
    (congrArg List.length hlines).trans List.length_append
  have hcarets : max width.toNat 1 = (max width 1).toNat := by omega
  refine ⟨hclamped,by omega,by omega,Nat.succ_pos _,lineAt source target,?_,?_,?_,?_⟩
  · change (source.splitOn '\n')[place.row - 1]? = _
    rw [hrow,hlines,Nat.add_sub_cancel,List.getElem?_append_right (Nat.le_refl _),Nat.sub_self]
    rfl
  · rw [hcolumn,lineAt,List.length_append]
    omega
  · rw [lineStart,hrow,hlines,Nat.add_sub_cancel,List.take_left,hcolumn]
    exact hstart
  · rw [hcolumn,← hcarets,picture]
    simp only [Position.text,List.append_assoc,List.cons_append]
    rfl

/-- Far behind a last newline there is still one line, which is empty. -/
example : position "a\n".toList (offsetBy "a\n".toList 1 7) = ⟨2,1⟩ ∧
    "a\n".toList.splitOn '\n' = [['a'],[]] ∧ lineAt "a\n".toList 2 = [] := by
  decide

end Source

end Stencil

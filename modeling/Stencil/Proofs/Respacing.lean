import Mathlib
import Stencil.Proofs.DepthLimit
import Stencil.Proofs.Reading.LocalityBlock
import Stencil.Proofs.Reading.Printed

/-! # Conditions with other blanks

Blanks in a condition stand between its lexemes or in its literals. Any run of blanks outside of
the literals can be put in the place of another one: the readings go over both in one skip, and
what they find in front of them and behind them is the same.
-/
namespace Stencil
open Grammar
variable {ceiling : Nat}

/-- What is open behind a text: nothing, a literal that `quote` closes, or such a literal with a
backslash at its end, which protects the next character. -/
inductive Quoting where
  | outside
  | inside (quote : Char)
  | escaped (quote : Char)
  deriving DecidableEq, Repr

namespace Quoting

def next : Quoting → Char → Quoting
  | outside,x => if isQuote x then inside x else outside
  | inside quote,x => if x = quote then outside else if x = '\\' then escaped quote else inside quote
  | escaped quote,_ => inside quote

def after (q : Quoting) (t : Text) : Quoting := t.foldl next q

@[simp] theorem after_nil (q : Quoting) : q.after [] = q := rfl

@[simp] theorem after_cons (q : Quoting) (x : Char) (t : Text) : q.after (x :: t) = (q.next x).after t :=
  rfl

theorem after_append_of_free {t : Text} (ht : ∀ x ∈ t, isQuote x = false) (u : Text) :
    outside.after (t ++ u) = outside.after u := by
  induction t with
  | nil => rfl
  | cons x t ih =>
    obtain ⟨hx,ht⟩ := List.forall_mem_cons.mp ht
    simp [next,hx,ih ht]

/-- Where the text leaves a literal, the quote that closes it is there. -/
theorem exists_unquote? {quote : Char} {u : Text} (h : (inside quote).after u = outside) :
    ∃ t n, unquote? quote u = some (t,n) ∧ outside.after (u.drop n) = outside := by
  fun_induction unquote? quote u with
  | case1 => cases h
  | case2 rest => exact ⟨[],1,rfl,by simpa [next] using h⟩
  | case3 hq => simp [next,hq] at h
  | case4 x rest hq ih =>
    obtain ⟨t,n,hu,hn⟩ := ih (by simpa [next,hq] using h)
    exact ⟨x :: t,n+2,by rw [hu]; rfl,hn⟩
  | case5 x rest hq hb ih =>
    obtain ⟨t,n,hu,hn⟩ := ih (by simpa [next,hq,hb] using h)
    exact ⟨x :: t,n+1,by rw [hu]; rfl,hn⟩

end Quoting

theorem unquote?_append {quote : Char} (hquote : isQuote quote = true) {u t : Text} {n : Nat}
    (h : unquote? quote u = some (t,n)) (r : Text) : unquote? quote (u ++ r) = some (t,n) := by
  have htake := unquote?_take (ne_backslash_of_isQuote hquote) h (u.drop n ++ r)
  rwa [← List.append_assoc,List.take_append_drop] at htake

/-- A run of blanks, one at least. -/
structure IsGap (w : Text) : Prop where
  ne_nil : w ≠ []
  blank : ∀ x ∈ w, isBlank x = true

/-- No blank and no quote is in the token. -/
def IsBare (token : Text) : Prop := ∀ x ∈ token, isBlank x = false ∧ isQuote x = false

instance (token : Text) : Decidable (IsBare token) := List.decidableBAll _ token

theorem IsBare.notMem {token : Text} (ht : IsBare token) {x : Char} (hx : isBlank x = true) : x ∉ token := by
  intro hm
  simp [(ht x hm).1] at hx

theorem isBare_of_mem_lookAheads : ∀ token ∈ lookAheads, IsBare token := by decide +kernel

theorem eq_false_of_isBlank {p : Char → Bool} (hp : ∀ ⦃x⦄, p x = true → isBlank x = false) {x : Char}
    (hx : isBlank x = true) : p x = false := by
  cases h : p x with
  | false => rfl
  | true => simp [hp h] at hx

theorem isQuote_of_mem_isName {t : Text} (ht : IsName t) {x : Char} (hx : x ∈ t) : isQuote x = false := by
  cases t with
  | nil => cases hx
  | cons y t =>
    rcases List.mem_cons.mp hx with rfl | hx
    · exact isQuote_of_isNameStart ht.1
    · exact isQuote_of_isNameChar (ht.2 x hx)

theorem isBlank_of_isQuote ⦃x : Char⦄ (h : isQuote x = true) : isBlank x = false :=
  isBlank_of_isArgStart (Bool.or_eq_true_iff.mpr (Or.inl h))

theorem isBlank_of_isNameStart ⦃x : Char⦄ (h : isNameStart x = true) : isBlank x = false :=
  isBlank_of_isNameChar (isNameChar_of_isNameStart h)

theorem isStop_of_isBlank {x : Char} (hx : isBlank x = true) : IsStop x where
  quote := eq_false_of_isBlank isBlank_of_isQuote hx
  start := eq_false_of_isBlank isBlank_of_isNameStart hx
  name := eq_false_of_isBlank (fun _ h => isBlank_of_isNameChar h) hx
  ahead token ht := (isBare_of_mem_lookAheads token ht).notMem hx

namespace IsGap
variable {w : Text} (hw : IsGap w)
include hw

theorem length_pos : 0 < w.length := List.length_pos_iff.mpr hw.ne_nil

theorem exists_begins (v : Text) : ∃ x, isBlank x = true ∧ Begins x (w ++ v) := by
  obtain ⟨x,s,rfl⟩ := List.exists_cons_of_ne_nil hw.ne_nil
  exact ⟨x,hw.blank x List.mem_cons_self,begins_cons x (s ++ v)⟩

/-! No lexeme before a gap goes on into it. -/

theorem any_head_append {p : Char → Bool} (hp : ∀ ⦃x⦄, p x = true → isBlank x = false) (u v : Text) :
    (u ++ (w ++ v)).head?.any p = u.head?.any p := by
  obtain ⟨x,hx,hb⟩ := hw.exists_begins v
  exact Grammar.any_head_append hb (eq_false_of_isBlank hp hx) u

theorem prefix_append_iff {token : Text} (ht : IsBare token) (u v : Text) :
    token <+: u ++ (w ++ v) ↔ token <+: u := by
  obtain ⟨x,hx,hb⟩ := hw.exists_begins v
  exact Grammar.prefix_append_iff hb (ht.notMem hx)

theorem nameAt_append (u v : Text) : nameAt (u ++ (w ++ v)) = nameAt u := by
  obtain ⟨x,hx,hb⟩ := hw.exists_begins v
  exact nameAt_append_of_begins (isStop_of_isBlank hx) hb u

theorem dropWhile_append {b : Text} (hb : ∀ x ∈ b, isBlank x = true) (v : Text) :
    (b ++ (w ++ v)).dropWhile isBlank = v.dropWhile isBlank := by
  rw [← List.append_assoc,List.dropWhile_append_of_pos]
  exact List.forall_mem_append.mpr ⟨hb,hw.blank⟩

end IsGap

/-- The text `u` stands before the gap, which is `w` at `c` and `w'` at `c'` and begins at the offset
`k`, outside of all literals. Behind it comes `v`. -/
structure Before (w w' v u : Text) (k : Nat) (c c' : Cursor) : Prop where
  quoting : Quoting.outside.after u = .outside
  rest : c.rest = u ++ (w ++ v)
  rest' : c'.rest = u ++ (w' ++ v)
  offset : c.offset + u.length = k
  offset' : c'.offset = c.offset

/-- The gap is in front of both cursors with the same text before it, or both are behind it at the
same place. -/
inductive Respaced (w w' v : Text) (k : Nat) (c c' : Cursor) : Prop where
  | before (u : Text) (h : Before w w' v u k c c')
  | behind (h : c'.rest = c.rest) (hk : k + w.length ≤ c.offset)
    (ho : c'.offset + w.length = c.offset + w'.length)

/-- Where the offset `n` comes to when `m` characters from `k` on give way to `m'`. -/
def shiftFrom (k m m' n : Nat) : Nat := if n ≤ k then n else n + m' - m

variable {w w' v u : Text} {k : Nat} {c c' d : Cursor}

theorem Before.advance {p : Text} (h : Before w w' v (p ++ u) k c c')
    (hu : Quoting.outside.after u = .outside) :
    Before w w' v u k (c.advance p.length) (c'.advance p.length) where
  quoting := hu
  rest := Cursor.rest_advance_of_append (by rw [h.rest,List.append_assoc])
  rest' := Cursor.rest_advance_of_append (by rw [h.rest',List.append_assoc])
  offset := by
    have hk := h.offset
    rw [Cursor.offset_advance,h.rest]
    simp only [List.length_append] at hk ⊢
    omega
  offset' := by
    rw [Cursor.offset_advance,Cursor.offset_advance,h.rest,h.rest',h.offset']
    simp only [List.length_append]
    omega

theorem Before.advance_of_free {p : Text} (h : Before w w' v (p ++ u) k c c')
    (hp : ∀ x ∈ p, isQuote x = false) :
    Before w w' v u k (c.advance p.length) (c'.advance p.length) :=
  h.advance ((Quoting.after_append_of_free hp u).symm.trans h.quoting)

theorem Respaced.advance_behind (h : c'.rest = c.rest) (hk : k + w.length ≤ c.offset)
    (ho : c'.offset + w.length = c.offset + w'.length) (n : Nat) :
    Respaced w w' v k (c.advance n) (c'.advance n) := by
  refine .behind ?_ ?_ ?_
  · rw [Cursor.rest_advance,Cursor.rest_advance,h]
  · rw [Cursor.offset_advance]
    omega
  · rw [Cursor.offset_advance,Cursor.offset_advance,h]
    omega

section Gap
variable (hw : IsGap w) (hw' : IsGap w')
include hw

theorem Respaced.offset (h : Respaced w w' v k c c') : c'.offset = shiftFrom k w.length w'.length c.offset := by
  have hpos := hw.length_pos
  unfold shiftFrom
  cases h with
  | before u h =>
    have hk := h.offset
    rw [if_pos (by omega),h.offset']
  | behind _ hk ho =>
    rw [if_neg (by omega)]
    omega

theorem Respaced.literal (h : Respaced w w' v k c c') {t : Text} (hl : literal c = .ok (t,d)) :
    ∃ d', Grammar.literal c' = .ok (t,d') ∧ Respaced w w' v k d d' := by
  obtain ⟨quote,rest,n,hr,hq,hu,rfl⟩ := literal_eq_ok.mp hl
  cases h with
  | before u h =>
    rcases u with _ | ⟨x,u⟩
    · -- the gap begins with no quote
      have hquote := hw.any_head_append isBlank_of_isQuote [] v
      rw [← h.rest,hr] at hquote
      exact absurd (hq.symm.trans hquote) (by decide)
    · obtain ⟨rfl,rfl⟩ := List.cons.inj (hr.symm.trans h.rest)
      have hquoting := h.quoting
      rw [Quoting.after_cons,Quoting.next,if_pos hq] at hquoting
      obtain ⟨t',n',hu',hn⟩ := Quoting.exists_unquote? hquoting
      obtain ⟨rfl,rfl⟩ := Prod.mk.inj (Option.some.inj (hu.symm.trans (unquote?_append hq hu' (w ++ v))))
      have hsplit : quote :: u = quote :: u.take n ++ u.drop n := by
        rw [List.cons_append,List.take_append_drop]
      have hlength : (quote :: u.take n).length = n + 1 := by
        rw [List.length_cons,List.length_take_of_le (length_le_of_unquote? hu')]
      have hd := (hsplit ▸ h).advance hn
      rw [hlength] at hd
      exact ⟨_,literal_eq_ok.mpr ⟨quote,_,n,h.rest',hq,unquote?_append hq hu' (w' ++ v),rfl⟩,.before _ hd⟩
  | behind h hk ho =>
    exact ⟨_,literal_eq_ok.mpr ⟨quote,rest,n,by rw [h,hr],hq,hu,rfl⟩,.advance_behind h hk ho _⟩

include hw'

theorem Respaced.any_head (h : Respaced w w' v k c c') {p : Char → Bool}
    (hp : ∀ ⦃x⦄, p x = true → isBlank x = false) : c'.rest.head?.any p = c.rest.head?.any p := by
  cases h with
  | before u h => rw [h.rest,h.rest',hw.any_head_append hp,hw'.any_head_append hp]
  | behind h => rw [h]

theorem heeds_respaced {token : Text} (ht : IsBare token) : Heeds (Respaced w w' v k) token where
  present := by
    intro c c' h hp
    cases h with
    | before u h =>
      rw [h.rest,hw.prefix_append_iff ht] at hp
      obtain ⟨r,rfl⟩ := hp
      refine ⟨?_,.before r (h.advance_of_free fun x hx => (ht x hx).2)⟩
      rw [h.rest',hw'.prefix_append_iff ht]
      exact List.prefix_append token r
    | behind h hk ho => exact ⟨by rwa [h],.advance_behind h hk ho _⟩
  absent := by
    intro c c' h hn
    cases h with
    | before u h =>
      rw [h.rest,hw.prefix_append_iff ht] at hn
      rwa [h.rest',hw'.prefix_append_iff ht]
    | behind h hk ho => rwa [h]

/-- Where nothing but blanks is left before the gap, they are skipped with it. -/
theorem Before.skipBlank_of_blank (h : Before w w' v u k c c') (hu : ∀ x ∈ u, isBlank x = true) :
    Respaced w w' v k c.skipBlank c'.skipBlank := by
  have hrest : c.skipBlank.rest = v.dropWhile isBlank := by
    rw [Cursor.rest_skipBlank,h.rest,hw.dropWhile_append hu]
  have hrest' : c'.skipBlank.rest = v.dropWhile isBlank := by
    rw [Cursor.rest_skipBlank,h.rest',hw'.dropWhile_append hu]
  have hreach := (Cursor.reaches_skipBlank c).offset
  have hreach' := (Cursor.reaches_skipBlank c').offset
  have hle := List.length_dropWhile_le isBlank v
  have hk := h.offset
  have ho := h.offset'
  rw [hrest,h.rest] at hreach
  rw [hrest',h.rest'] at hreach'
  simp only [List.length_append] at hreach hreach'
  exact .behind (hrest'.trans hrest.symm) (by omega) (by omega)

theorem Respaced.skipBlank (h : Respaced w w' v k c c') :
    Respaced w w' v k c.skipBlank c'.skipBlank := by
  cases h with
  | before u h =>
    by_cases hu : u.dropWhile isBlank = []
    · exact h.skipBlank_of_blank hw hw' (List.dropWhile_eq_nil_iff.mp hu)
    · -- the skip ends before the gap
      have htake : c.rest.takeWhile isBlank = u.takeWhile isBlank := by
        rw [h.rest,takeWhile_append_of_stop (Or.inl hu)]
      have htake' : c'.rest.takeWhile isBlank = u.takeWhile isBlank := by
        rw [h.rest',takeWhile_append_of_stop (Or.inl hu)]
      rw [← List.takeWhile_append_dropWhile (p := isBlank) (l := u)] at h
      rw [Cursor.skipBlank,Cursor.skipBlank,Cursor.skipWhile,Cursor.skipWhile,htake,htake']
      refine .before _ (h.advance_of_free fun x hx => ?_)
      exact (isStop_of_isBlank (List.mem_takeWhile_imp hx)).quote
  | behind h hk ho =>
    rw [Cursor.skipBlank,Cursor.skipBlank,Cursor.skipWhile,Cursor.skipWhile,h]
    exact .advance_behind h hk ho _

theorem Respaced.name (h : Respaced w w' v k c c') {problem : Problem} {t : Text}
    (hn : name problem c = .ok (t,d)) :
    ∃ d', Grammar.name problem c' = .ok (t,d') ∧ Respaced w w' v k d d' := by
  obtain ⟨ht,hne,rfl⟩ := name_eq_ok.mp hn
  cases h with
  | before u h =>
    rw [h.rest,hw.nameAt_append] at ht
    have ht' : t = nameAt c'.rest := by rw [h.rest',hw'.nameAt_append,ht]
    obtain ⟨r,rfl⟩ : t <+: u := by
      rw [ht]
      exact nameAt_isPrefix u
    refine ⟨_,name_eq_ok.mpr ⟨ht',hne,rfl⟩,.before r (h.advance_of_free fun x hx => ?_)⟩
    exact isQuote_of_mem_isName (isName_of_name hn) hx
  | behind h hk ho => exact ⟨_,name_eq_ok.mpr ⟨by rwa [h],hne,rfl⟩,.advance_behind h hk ho _⟩

theorem lockstep_respaced :
    Lockstep (shiftFrom k w.length w'.length) (fun _ => True) (Respaced w w' v k) where
  guard _ _ _ _ := trivial
  offset _ _ h _ := h.offset hw
  atName _ _ h _ := h.any_head hw hw' isBlank_of_isNameStart
  atQuote _ _ h _ := h.any_head hw hw' isBlank_of_isQuote
  heeds token ht := heeds_respaced hw hw' (isBare_of_mem_lookAheads token ht)
  skipBlank _ _ h := h.skipBlank hw hw'
  expect := by
    intro c c' d role token h ht he _
    have hbare : ∀ token ∈ closers, IsBare token := by decide
    obtain ⟨hp,rfl⟩ := expect_eq_ok.mp he
    obtain ⟨hp',h'⟩ := (heeds_respaced hw hw' (hbare token ht)).present h hp
    exact ⟨_,expect_eq_ok.mpr ⟨hp',rfl⟩,h'⟩
  name _ _ _ _ _ h hn := h.name hw hw' hn
  literal _ _ _ _ h hl _ := h.literal hw hl

end Gap

/-- A run of blanks outside of the literals can be replaced by any other. The condition is read
under the same limit and as the same tree, with the calls behind the blanks moved along. -/
theorem readCondition_respace (limit : Int) {u w w' v : Text} {x : Condition}
    (hu : Quoting.outside.after u = .outside) (hw : IsGap w) (hw' : IsGap w')
    (h : (Template.readCondition ceiling limit (u ++ w ++ v)).result = .ok x) :
    (Template.readCondition ceiling limit (u ++ w' ++ v)).result =
      .ok (x.relocate (shiftFrom u.length w.length w'.length)) := by
  rw [Template.readCondition_result,mapError_eq_ok,List.append_assoc] at h ⊢
  obtain ⟨d,hx,hend⟩ := readCondition_eq_ok.mp h
  have hstart : Respaced w w' v u.length (.start (u ++ (w ++ v))) (.start (u ++ (w' ++ v))) :=
    .before u ⟨hu,rfl,rfl,Nat.zero_add _,rfl⟩
  obtain ⟨d',hx',hd⟩ := follows_condition (lockstep_respaced hw hw') (heeds_respaced hw hw' (by decide))
    (heeds_respaced hw hw' (by decide)) (levelsFor ceiling limit) hx hstart trivial
  refine readCondition_eq_ok.mpr ⟨d',hx',?_⟩
  cases hd.skipBlank hw hw' with
  | before u h =>
    have hnil := h.rest.symm.trans hend
    exact absurd (List.append_eq_nil_iff.mp (List.append_eq_nil_iff.mp hnil).2).1 hw.ne_nil
  | behind h => exact h.trans hend

/-- A line break and a wide space behind a literal that holds a blank: the call in front of them
stays where it is and the one behind them moves. -/
theorem readCondition_respace_of_lines :
    (Template.readCondition 1000 (2 : Nat)
        ("x->f(a='b c')".toList ++ ['\n','\u3000'] ++ "like y->g()".toList)).result =
      .ok (.compare .like false
        (.mk (.variable ['x'] []) [.mk ['f'] [.mk ['a'] (some (.ofText "b c".toList))] 3])
        (.mk (.variable ['y'] []) [.mk ['g'] [] 23])) := by
  have hw : IsGap [' '] := ⟨by decide,List.all_eq_true.mp (by decide)⟩
  have hw' : IsGap ['\n','\u3000'] := ⟨by decide,List.all_eq_true.mp (by decide)⟩
  have hread : (Template.readCondition 1000 (2 : Nat)
      ("x->f(a='b c')".toList ++ [' '] ++ "like y->g()".toList)).result =
      .ok (.compare .like false
        (.mk (.variable ['x'] []) [.mk ['f'] [.mk ['a'] (some (.ofText "b c".toList))] 3])
        (.mk (.variable ['y'] []) [.mk ['g'] [] 22])) := by cbv
  exact readCondition_respace (2 : Nat) (by decide) hw hw' hread

end Stencil

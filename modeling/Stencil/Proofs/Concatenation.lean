import Mathlib
import Stencil.Proofs.Reading.Document
import Stencil.Proofs.Reading.LocalityBlock
import Stencil.Proofs.Reading.Shape

/-! # Templates one behind the other

Two templates put together are read as the blocks of the first and then those of the
second, whose calls stand further on by the length of the first. A text at the end of the
first goes on into a text at the start of the second, unless that one begins with a
backslash.
-/
namespace Stencil
open Grammar
variable {levels : Nat}

/-- One sequence behind the other. A text at the end of the first and a text at the start of
the second become one. -/
def joinTexts : List Block → List Block → List Block
  | [],ys => ys
  | [.text a],.text b :: ys => .text (a ++ b) :: ys
  | x :: xs,ys => x :: joinTexts xs ys

theorem joinTexts_cons (x : Block) {xs : List Block} (ys : List Block) (h : xs ≠ []) :
    joinTexts (x :: xs) ys = x :: joinTexts xs ys := by
  cases xs with
  | nil => exact absurd rfl h
  | cons y xs => cases x <;> rfl

theorem joinTexts_singleton {x : Block} (ys : List Block) (h : x.isText = false) :
    joinTexts [x] ys = x :: ys := by
  cases x with
  | text t => cases h
  | _ => rfl

theorem joinTexts_eq_append (xs : List Block) {ys : List Block}
    (h : ∀ y ∈ ys.head?, y.isText = false) : joinTexts xs ys = xs ++ ys := by
  induction xs with
  | nil => rfl
  | cons x xs ih =>
    cases xs with
    | cons z xs =>
      rw [joinTexts_cons x ys (List.cons_ne_nil z xs),ih]
      rfl
    | nil =>
      cases x with
      | text a =>
        rcases ys with _ | ⟨y,ys⟩
        · rfl
        · have hy := h y rfl
          cases y with
          | text b => cases hy
          | _ => rfl
      | _ => rfl

/-- The same text further on is read as the same blocks further on. -/
theorem rounds_shift {c d e : Cursor} {xs : List Block} {k : Nat}
    (h : Rounds atBlock (blockWith levels (body levels)) c xs d) (ht : Twins [] [] k c e) :
    ∃ e', Rounds atBlock (blockWith levels (body levels)) e (xs.map (Block.relocate (· + k))) e' ∧
      e'.rest = d.rest := by
  obtain ⟨e',hxs,ht'⟩ :=
    carries_blockRounds (moves_body levels) (carriesBodies_body [] k levels) h ht (Or.inr (Or.inl rfl))
  exact ⟨e',hxs,by rw [ht'.rest_eq,List.append_nil]⟩

theorem isText_of_directiveWith {c d : Cursor} {x : Block}
    (h : directiveWith levels (body levels) c = .ok (x,d)) : x.isText = false :=
  (shape_of_directiveWith (fun _ _ _ hxs => shape_of_body hxs) h).1

/-- A template that begins neither with text nor with a backslash has no text in front. -/
theorem isText_of_head {c d : Cursor} {ys : List Block}
    (h : Rounds atBlock (blockWith levels (body levels)) c ys d) (he : EndsText c.rest)
    (hb : c.rest.head? ≠ some '\\') : ∀ y ∈ ys.head?, y.isText = false := by
  rcases h with _ | ⟨hat,hx,_⟩
  · intro y hy
    cases hy
  · rintro y ⟨⟩
    simp only [blockWith] at hx
    split at hx
    · exact isText_of_directiveWith hx
    · next hbrace =>
      cases hc : c.rest with
      | nil => simp [atBlock,Cursor.atEnd,hc] at hat
      | cons x s =>
        have hx := he x (by rw [hc]; rfl)
        rw [hc,List.head?_cons,ne_eq,Option.some.injEq] at hb
        rw [hc,List.head?_cons,Option.some.injEq] at hbrace
        simp [isTextChar,hb,hbrace] at hx

/-- No text crosses the seam if the second part begins with a brace or backslash. -/
theorem rounds_append_of_endsText {t : Text} (ht : EndsText t) {xs ys : List Block} {c c' d e : Cursor}
    (h : Rounds atBlock (blockWith levels (body levels)) c xs d) (hd : d.rest = [])
    (htw : Twins [] t 0 c c') (h' : Rounds atBlock (blockWith levels (body levels)) (.start t) ys e) :
    ∃ e', Rounds atBlock (blockWith levels (body levels)) c'
      (xs ++ ys.map (Block.relocate (· + d.offset))) e' ∧ e'.rest = e.rest := by
  induction h generalizing c' with
  | stop =>
    have hrest : c'.rest = t := by rw [htw.rest_eq,hd,List.nil_append]
    exact rounds_shift h' (twins_of_rest_eq hrest (htw.offset.trans (Nat.zero_add _).symm))
  | @next c c₁ d x xs hat hx _ ih =>
    obtain ⟨c₁',hat',hx',ht₁⟩ :=
      carries_block (carriesBodies_body t 0 levels) hat hx htw fun _ => Or.inr ht
    have hid : x.relocate (· + 0) = x := x.relocate_id
    rw [hid] at hx'
    obtain ⟨e',hxs,he⟩ := ih hd ht₁
    exact ⟨e',.next hat' hx' hxs,he⟩

theorem rounds_of_rest_nil {c d : Cursor} {xs : List Block}
    (h : Rounds atBlock (blockWith levels (body levels)) c xs d) (hc : c.rest = []) :
    xs = [] ∧ c = d := by
  rcases h with _ | ⟨hat,_,_⟩
  · exact ⟨rfl,rfl⟩
  · simp [atBlock,Cursor.atEnd,hc] at hat

theorem textBlock_of_blockWith {c d : Cursor} {a : Text} (hat : atBlock c = true)
    (h : blockWith levels (body levels) c = .ok (.text a,d)) :
    c.rest ≠ [] ∧ c.rest.head? ≠ some '\x7b' ∧ textBlock c = .ok (.text a,d) := by
  have hne : c.rest ≠ [] := by
    intro hc
    simp [atBlock,Cursor.atEnd,hc] at hat
  simp only [blockWith] at h
  split at h
  · exact absurd (isText_of_directiveWith h) (by simp [Block.isText])
  · next hbrace => exact ⟨hne,hbrace,h⟩

/-- A run of characters that takes up all of the first part goes on in the second. -/
theorem skipWhile_append {p : Char → Bool} {t : Text} {c c' : Cursor} (ht : Twins [] t 0 c c')
    (hd : (c.skipWhile p).rest = []) : ∃ e, Twins [] t 0 (c.skipWhile p) e ∧
      c'.rest.takeWhile p = c.rest.takeWhile p ++ t.takeWhile p ∧ c'.skipWhile p = e.skipWhile p := by
  have htake : c.rest.takeWhile p = c.rest := by
    rw [Cursor.rest_skipWhile] at hd
    have happ := List.takeWhile_append_dropWhile (p := p) (l := c.rest)
    rwa [hd,List.append_nil] at happ
  have hall : ∀ x ∈ c.rest, p x = true := by
    rw [← htake]
    exact List.all_eq_true.mp List.all_takeWhile
  have htake' : c'.rest.takeWhile p = c.rest ++ t.takeWhile p := by
    rw [ht.rest_eq,List.takeWhile_append_of_pos hall]
  have hrest : (c'.advance c.rest.length).rest = t := Cursor.rest_advance_of_append ht.rest_eq
  refine ⟨c'.advance c.rest.length,?_,by rw [htake,htake'],?_⟩
  · rw [Cursor.skipWhile,htake]
    exact ht.advance (by simp)
  · rw [Cursor.skipWhile,Cursor.skipWhile,htake',hrest,Cursor.advance_advance,List.length_append]

/-- A text that runs to the end of the first part goes on in the second. -/
theorem textBlock_append {t a : Text} {c c' d : Cursor} (h : textBlock c = .ok (.text a,d))
    (hne : c.rest ≠ []) (hd : d.rest = []) (ht : Twins [] t 0 c c') :
    ∃ e, Twins [] t 0 d e ∧
      textBlock c' = .ok (.text (a ++ t.takeWhile isTextChar),e.skipWhile isTextChar) := by
  obtain ⟨head,b,b',hb,ha,rfl,h'⟩ := ht.textBlock hne h
  obtain rfl := Block.text.inj ha
  obtain ⟨e,hte,htake,hskip⟩ := skipWhile_append hb hd
  rw [htake,hskip,← List.append_assoc] at h'
  exact ⟨e,hte,h'⟩

/-- The first round over a text that begins with plain text. -/
theorem rounds_of_plain {t : Text} {z : Char} {ys : List Block} {e : Cursor} (hz : isTextChar z = true)
    (h : Rounds atBlock (blockWith levels (body levels)) (.start (z :: t)) ys e) :
    ∃ zs, ys = .text ((z :: t).takeWhile isTextChar) :: zs ∧ Rounds atBlock (blockWith levels (body levels))
      ((Cursor.start (z :: t)).skipWhile isTextChar) zs e := by
  have hne : ∀ y, isTextChar y = false → (Cursor.start (z :: t)).rest.head? ≠ some y := by
    rintro y hy ⟨⟩
    exact absurd (hz.symm.trans hy) (by decide)
  rcases h with hat | ⟨hat,hy,hzs⟩
  · rw [atBlock_of_head_ne (List.cons_ne_nil z t) (hne _ (by decide))] at hat
    cases hat
  · rw [blockWith,if_neg (hne _ (by decide))] at hy
    rcases textBlock_eq_ok.mp hy with ⟨_,_,_,hb,_,_⟩ | ⟨_,rfl,rfl⟩
    · exact absurd (by rw [hb]; rfl) (hne '\\' (by decide))
    · exact ⟨_,rfl,hzs⟩

/-- A text at the end of the first part takes in the plain text in front of the second. -/
theorem rounds_append_of_plain {t : Text} {z : Char} (hz : isTextChar z = true) {xs ys : List Block}
    {c c' d e : Cursor} (h : Rounds atBlock (blockWith levels (body levels)) c xs d) (hd : d.rest = [])
    (htw : Twins [] (z :: t) 0 c c')
    (h' : Rounds atBlock (blockWith levels (body levels)) (.start (z :: t)) ys e) :
    ∃ e', Rounds atBlock (blockWith levels (body levels)) c'
      (joinTexts xs (ys.map (Block.relocate (· + d.offset)))) e' ∧ e'.rest = e.rest := by
  induction h generalizing c' with
  | stop =>
    have hrest : c'.rest = z :: t := by rw [htw.rest_eq,hd,List.nil_append]
    exact rounds_shift h' (twins_of_rest_eq hrest (htw.offset.trans (Nat.zero_add _).symm))
  | @next c c₁ d x xs hat hx hxs ih =>
    -- only a text in the last round meets the seam, and it takes the second part's first round in
    by_cases hlast : x.isText = true ∧ c₁.rest = []
    · obtain ⟨hxt,hend⟩ := hlast
      obtain ⟨rfl,rfl⟩ := rounds_of_rest_nil hxs hend
      obtain ⟨zs,rfl,hzs⟩ := rounds_of_plain hz h'
      cases x with
      | text a =>
        obtain ⟨hne,hbrace,htext⟩ := textBlock_of_blockWith hat hx
        obtain ⟨b,hb,htext'⟩ := textBlock_append htext hne hd htw
        have hrest : b.rest = z :: t := by rw [hb.rest_eq,hd,List.nil_append]
        have hstart : Twins [] [] c₁.offset (.start (z :: t)) b :=
          twins_of_rest_eq hrest (hb.offset.trans (Nat.zero_add _).symm)
        have hnil : ∀ x ∈ ([] : Text).head?, isTextChar x = false := by
          intro x hx
          cases hx
        obtain ⟨_,hskip⟩ := hstart.skipWhile_of_stop (Or.inr hnil)
        obtain ⟨e',hrounds,he⟩ := rounds_shift hzs hskip
        have hbrace' : c'.rest.head? ≠ some '\x7b' := by rwa [htw.head?_eq hne]
        have hne' : c'.rest ≠ [] := by
          rw [htw.rest_eq]
          exact List.append_ne_nil_of_left_ne_nil hne (z :: t)
        exact ⟨e',.next (atBlock_of_head_ne hne' hbrace') (by rw [blockWith,if_neg hbrace',htext']) hrounds,he⟩
      | _ => cases hxt
    · obtain ⟨c₁',hat',hx',ht₁⟩ := carries_block (carriesBodies_body (z :: t) 0 levels) hat hx htw
        fun hxt => Or.inl fun hend => hlast ⟨hxt,hend⟩
      have hid : x.relocate (· + 0) = x := x.relocate_id
      rw [hid] at hx'
      obtain ⟨e',hrounds,he⟩ := ih hd ht₁
      have hjoin : ∀ zs, joinTexts (x :: xs) zs = x :: joinTexts xs zs := by
        intro zs
        cases xs with
        | cons y xs => exact joinTexts_cons x zs (List.cons_ne_nil y xs)
        | nil =>
          cases hxs
          have hxt : x.isText = false := by
            cases hxt : x.isText with
            | false => rfl
            | true => exact absurd ⟨hxt,hd⟩ hlast
          exact joinTexts_singleton zs hxt
      rw [hjoin]
      exact ⟨e',.next hat' hx' hrounds,he⟩

/-- Two templates that are read under some number of levels are read under it when they stand
one behind the other: as the blocks of the first and the blocks of the second, the calls of
the second further on by the length of the first. Only a text at the seam becomes one with
the text it meets, and not even that if a backslash begins the second template. -/
theorem readBlocks_append {s t : Text} {xs ys : List Block} (hs : readBlocks levels s = .ok xs)
    (ht : readBlocks levels t = .ok ys) :
    readBlocks levels (s ++ t) = .ok
      (if t.head? = some '\\' then xs ++ ys.map (Block.relocate (· + s.length))
      else joinTexts xs (ys.map (Block.relocate (· + s.length)))) := by
  obtain ⟨d,hxs,hd⟩ := readBlocks_eq_ok.mp hs
  obtain ⟨e,hys,he⟩ := readBlocks_eq_ok.mp ht
  rw [blocks_eq_ok] at hxs hys
  have hoffset : d.offset = s.length := by
    have hreach := (hxs.reaches (repeats_blockWith levels (moves_body levels))).offset_of_start
    rwa [hd,List.length_nil,Nat.add_zero] at hreach
  have htw : Twins [] t 0 (.start s) (.start (s ++ t)) := ⟨⟨s,(List.append_nil s).symm,rfl⟩,rfl⟩
  have hread : ∀ {zs : List Block} {e' : Cursor},
      Rounds atBlock (blockWith levels (body levels)) (.start (s ++ t)) zs e' → e'.rest = e.rest →
      readBlocks levels (s ++ t) = .ok zs := fun hzs he' =>
    readBlocks_eq_ok.mpr ⟨_,blocks_eq_ok.mpr hzs,he'.trans he⟩
  rw [← hoffset]
  by_cases hends : EndsText t
  · obtain ⟨e',hzs,he'⟩ := rounds_append_of_endsText hends hxs hd htw hys
    rw [hread hzs he']
    split
    · rfl
    · next hb =>
      have hfirst := isText_of_head hys hends hb
      rw [joinTexts_eq_append]
      intro y hy
      rw [List.head?_map,Option.mem_def,Option.map_eq_some_iff] at hy
      obtain ⟨y',hy',rfl⟩ := hy
      have hy'' := hfirst y' hy'
      cases y' with
      | text a => cases hy''
      | _ => rfl
  · cases t with
    | nil => exact absurd (fun x hx => by cases hx) hends
    | cons z t =>
      have hz : isTextChar z = true := by
        cases hz : isTextChar z with
        | true => rfl
        | false =>
          refine absurd (fun x hx => ?_) hends
          obtain rfl := Option.some.inj hx
          exact hz
      obtain ⟨e',hzs,he'⟩ := rounds_append_of_plain hz hxs hd htw hys
      have hb : (z :: t).head? ≠ some '\\' := by
        rintro ⟨⟩
        exact absurd hz (by decide)
      rw [hread hzs he',if_neg hb]

theorem readBlocks_append_of_calls :
    readBlocks 1 "a\x7b\x7b:x -> f()\x7d\x7db".toList =
      .ok [.text ['a'],.print (.mk (.variable ['x'] []) [.mk ['f'] [] 9]),.text ['b']] ∧
    readBlocks 1 "c\x7b\x7b:y -> g()\x7d\x7d".toList =
      .ok [.text ['c'],.print (.mk (.variable ['y'] []) [.mk ['g'] [] 9])] ∧
    readBlocks 1 ("a\x7b\x7b:x -> f()\x7d\x7db".toList ++ "c\x7b\x7b:y -> g()\x7d\x7d".toList) =
      .ok [.text ['a'],.print (.mk (.variable ['x'] []) [.mk ['f'] [] 9]),.text ['b','c'],
        .print (.mk (.variable ['y'] []) [.mk ['g'] [] 24])] := by
  have hs : readBlocks 1 "a\x7b\x7b:x -> f()\x7d\x7db".toList =
      .ok [.text ['a'],.print (.mk (.variable ['x'] []) [.mk ['f'] [] 9]),.text ['b']] := by cbv
  have ht : readBlocks 1 "c\x7b\x7b:y -> g()\x7d\x7d".toList =
      .ok [.text ['c'],.print (.mk (.variable ['y'] []) [.mk ['g'] [] 9])] := by cbv
  have hb : "c\x7b\x7b:y -> g()\x7d\x7d".toList.head? ≠ some '\\' := by decide
  have hlen : "a\x7b\x7b:x -> f()\x7d\x7db".toList.length = 15 := by rfl
  have happ := readBlocks_append hs ht
  rw [if_neg hb,hlen] at happ
  exact ⟨hs,ht,happ⟩

end Stencil

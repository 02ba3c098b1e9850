import Stencil.Proofs.Reading.Block
import Stencil.Proofs.Reading.Locality
import Stencil.Proofs.Tree.Shape

/-! # What the reading of a block looks at

A directive ends with a closing tag of its own, so that it is read again whatever text is
added behind it. What stands inside a tag is closed off by the braces of that tag, and a
body by the end tag after it. Only a text may go on into what is added.
-/
namespace Stencil.Grammar
variable {w : Text} {k : Nat} {c c' d : Cursor}

/-- What is added to the whole text is added behind any place in it. -/
theorem Twins.narrow {e : Cursor} (h : Twins [] w k c c') (he : c.Reaches e) :
    Twins e.rest (e.rest ++ w) k c c' := by
  obtain ⟨⟨u,hc,hc'⟩,ho⟩ := h
  obtain ⟨n,_,rfl⟩ := he
  rw [List.append_nil] at hc
  refine ⟨⟨u.take n,?_,?_⟩,ho⟩
  · rw [Cursor.rest_advance,hc,List.take_append_drop]
  · rw [Cursor.rest_advance,hc,← List.append_assoc,List.take_append_drop,hc']

theorem Twins.widen {v : Text} (h : Twins v (v ++ w) k c c') : Twins [] w k c c' := by
  obtain ⟨⟨u,hc,hc'⟩,ho⟩ := h
  exact ⟨⟨u ++ v,by rw [hc,List.append_nil],by rw [hc',List.append_assoc]⟩,ho⟩

theorem Twins.rest_eq (h : Twins [] w k c c') : c'.rest = c.rest ++ w := by
  obtain ⟨u,hc,hc'⟩ := h.same
  rw [hc,List.append_nil,hc']

theorem twins_of_rest_eq (hr : c'.rest = c.rest) (hk : c'.offset = c.offset + k) : Twins [] [] k c c' :=
  ⟨⟨c.rest,by rw [List.append_nil],by rw [hr,List.append_nil]⟩,hk⟩

theorem Twins.head?_eq (h : Twins [] w k c c') (hne : c.rest ≠ []) : c'.rest.head? = c.rest.head? := by
  obtain ⟨x,s,hs⟩ := List.exists_cons_of_ne_nil hne
  rw [h.rest_eq,hs]
  rfl

theorem Twins.prefix_again (h : Twins [] w k c c') {token : Text} (hp : token <+: c.rest) :
    token <+: c'.rest := by
  rw [h.rest_eq]
  exact hp.trans (List.prefix_append c.rest w)

theorem Twins.expect_again (h : Twins [] w k c c') {role : Role} {token : Text}
    (he : Grammar.expect role token c = .ok d) :
    ∃ d', Grammar.expect role token c' = .ok d' ∧ Twins [] w k d d' := by
  obtain ⟨hp,rfl⟩ := expect_eq_ok.mp he
  have hle := hp.length_le
  exact ⟨_,expect_eq_ok.mpr ⟨h.prefix_again hp,rfl⟩,h.advance (by simpa using hle)⟩

/-- The braces of a closing tag end every lexeme before them. -/
theorem closed_of_closeTag (h : closeTag c = .ok d) (w : Text) :
    Closed c.skipBlank.rest ∧ Closed (c.skipBlank.rest ++ w) := by
  obtain ⟨⟨s,hs⟩,_⟩ := expect_eq_ok.mp h
  rw [← hs]
  exact ⟨begins_cons _ _,begins_cons _ _⟩

theorem Twins.closeTag (h : Twins c.skipBlank.rest (c.skipBlank.rest ++ w) k c c')
    (he : Grammar.closeTag c = .ok d) : ∃ d', Grammar.closeTag c' = .ok d' ∧ Twins [] w k d d' := by
  obtain ⟨hv,hw⟩ := closed_of_closeTag he w
  exact (h.skipBlank hv hw).widen.expect_again he

theorem Twins.openTag {v : Text} (hv : Closed v) (hw : Closed w) (h : Twins v w k c c')
    {directive : Text} (hd : '\x7d' ∉ openToken directive) (ho : Grammar.openTag directive c = .ok d) :
    ∃ d', Grammar.openTag directive c' = .ok d' ∧ Twins v w k d d' := by
  obtain ⟨hp,rfl⟩ := openTag_eq_ok.mp ho
  exact ⟨_,openTag_eq_ok.mpr ⟨(h.prefix_iff hv hw hd).mpr hp,rfl⟩,
    (h.advance_of_prefix hv hd hp).skipBlank hv hw⟩

theorem takeWhile_append_of_stop {p : Char → Bool} {u : Text}
    (h : u.dropWhile p ≠ [] ∨ ∀ x ∈ w.head?, p x = false) :
    (u ++ w).takeWhile p = u.takeWhile p := by
  induction u with
  | nil =>
    rcases h with h | h
    · exact absurd rfl h
    · cases w with
      | nil => rfl
      | cons x w => simp [h x rfl]
  | cons x u ih =>
    rw [List.cons_append,List.takeWhile_cons,List.takeWhile_cons]
    cases hx : p x with
    | false => rfl
    | true =>
      rw [List.dropWhile_cons,if_pos hx] at h
      rw [if_pos rfl,if_pos rfl,ih h]

theorem Twins.skipWhile_of_stop (h : Twins [] w k c c') {p : Char → Bool}
    (hs : (c.skipWhile p).rest ≠ [] ∨ ∀ x ∈ w.head?, p x = false) :
    c'.rest.takeWhile p = c.rest.takeWhile p ∧ Twins [] w k (c.skipWhile p) (c'.skipWhile p) := by
  rw [Cursor.rest_skipWhile] at hs
  have htake : c'.rest.takeWhile p = c.rest.takeWhile p := by
    rw [h.rest_eq,takeWhile_append_of_stop hs]
  have hle := (List.takeWhile_prefix p (l := c.rest)).length_le
  rw [Cursor.skipWhile,Cursor.skipWhile,htake]
  exact ⟨rfl,h.advance (by simpa using hle)⟩

/-- A text has a head that an escape may give, and goes on from the twin places behind it. -/
theorem Twins.textBlock {x : Block} (ht : Twins [] w k c c') (hne : c.rest ≠ [])
    (h : Grammar.textBlock c = .ok (x,d)) : ∃ head b b', Twins [] w k b b' ∧
      x = .text (head ++ b.rest.takeWhile isTextChar) ∧ d = b.skipWhile isTextChar ∧
      Grammar.textBlock c' =
        .ok (.text (head ++ b'.rest.takeWhile isTextChar),b'.skipWhile isTextChar) := by
  have hhead := ht.head?_eq hne
  rcases textBlock_eq_ok.mp h with ⟨p,q,s,hc,rfl,rfl⟩ | ⟨hn,rfl,rfl⟩
  · have hadv : Twins [] w k (c.advance 3) (c'.advance 3) := ht.advance (by simp [hc])
    have hrest : (c.advance 3).rest = s := by
      rw [Cursor.rest_advance,hc]
      rfl
    have hrest' : (c'.advance 3).rest = s ++ w := by rw [hadv.rest_eq,hrest]
    have hc' : c'.rest = '\\' :: p :: q :: (s ++ w) := by
      rw [ht.rest_eq,hc]
      rfl
    refine ⟨[p,q],_,_,hadv,by rw [hrest]; rfl,rfl,?_⟩
    exact textBlock_eq_ok.mpr (Or.inl ⟨p,q,s ++ w,hc',by rw [hrest']; rfl,rfl⟩)
  · exact ⟨[],c,c',ht,rfl,rfl,textBlock_eq_ok.mpr (Or.inr ⟨by rwa [hhead],rfl,rfl⟩)⟩

theorem carries_textBlock {x : Block} (h : textBlock c = .ok (x,d)) (hne : c.rest ≠ [])
    (ht : Twins [] w k c c') (hs : d.rest ≠ [] ∨ EndsText w) :
    ∃ d', textBlock c' = .ok (x,d') ∧ Twins [] w k d d' := by
  obtain ⟨head,b,b',hb,rfl,rfl,h'⟩ := ht.textBlock hne h
  obtain ⟨htake,ht'⟩ := hb.skipWhile_of_stop hs
  rw [htake] at h'
  exact ⟨_,h',ht'⟩

variable {levels : Nat} {inner : Reading (List Block)}

theorem carries_loopSource {v : Text} (hv : Closed v) (hw : Closed w) :
    Carries v w k (LoopSource.relocate (· + k)) (loopSource (argument levels) (array levels)) := by
  intro c c' d x h ht hd
  rcases loopSource_eq_ok.mp h with ⟨hp,first,c₁,c₂,last,hf,he,hl,rfl⟩ | ⟨hp,items,hi,rfl⟩
  · have hle := ((reaches_of_expect he).trans ((consumes_argument levels).moves hl)).length_le
    have ht₁ := (ht.advance_of_prefix hv (by decide) hp).skipBlank hv hw
    obtain ⟨c₁',hf',ht₂⟩ := carries_argument hv hw levels hf ht₁ (by omega)
    obtain ⟨c₂',he',ht₃⟩ := ht₂.expect hv hw (by decide) he
    obtain ⟨d',hl',ht'⟩ := carries_argument hv hw levels hl ht₃ hd
    have hp' := (ht.prefix_iff hv hw (by decide)).mpr hp
    exact ⟨d',loopSource_eq_ok.mpr (Or.inl ⟨hp',_,c₁',c₂',_,hf',he',hl',rfl⟩),ht'⟩
  · have ht₁ := (ht.advance_of_prefix hv (by decide) hp).skipBlank hv hw
    obtain ⟨d',hi',ht'⟩ := carries_array hv hw levels hi ht₁ hd
    have hp' := (ht.prefix_iff hv hw (by decide)).mpr hp
    exact ⟨d',loopSource_eq_ok.mpr (Or.inr ⟨hp',_,hi',rfl⟩),ht'⟩

theorem carries_assignment {directive target : Text} {arg : Arg}
    (hd : '\x7d' ∉ openToken directive)
    (h : assignment (argument levels) directive c = .ok ((target,arg),d)) (ht : Twins [] w k c c') :
    ∃ d', assignment (argument levels) directive c' = .ok ((target,arg.relocate (· + k)),d') ∧
      Twins [] w k d d' := by
  obtain ⟨c₁,c₂,c₃,c₄,ho,hn,he,ha,hc⟩ := assignment_eq_ok.mp h
  obtain ⟨hv,hw⟩ := closed_of_closeTag hc w
  have hle := Cursor.length_skipBlank_le c₄
  have hreach : c.Reaches c₄.skipBlank := (reaches_of_openTag ho).trans <|
    (consumes_name _ hn).1.trans <| (Cursor.reaches_skipBlank c₂).trans <|
      (reaches_of_expect he).trans <| (Cursor.reaches_skipBlank c₃).trans <|
        (consumes_argument levels ha).1.trans (Cursor.reaches_skipBlank c₄)
  obtain ⟨c₁',ho',ht₁⟩ := (ht.narrow hreach).openTag hv hw hd ho
  obtain ⟨c₂',hn',ht₂⟩ := ht₁.name hv hw isStop_brace hn
  obtain ⟨c₃',he',ht₃⟩ := (ht₂.skipBlank hv hw).expect hv hw (by decide) he
  obtain ⟨c₄',ha',ht₄⟩ := carries_argument hv hw levels ha (ht₃.skipBlank hv hw) hle
  obtain ⟨d',hc',ht'⟩ := ht₄.closeTag hc
  exact ⟨d',assignment_eq_ok.mpr ⟨c₁',c₂',c₃',c₄',ho',hn',he',ha',hc'⟩,ht'⟩

theorem carries_printBlock {x : Block} (h : printBlock (argument levels) c = .ok (x,d))
    (ht : Twins [] w k c c') :
    ∃ d', printBlock (argument levels) c' = .ok (x.relocate (· + k),d') ∧ Twins [] w k d d' := by
  obtain ⟨c₁,arg,c₂,ho,ha,hc,rfl⟩ := printBlock_eq_ok.mp h
  obtain ⟨hv,hw⟩ := closed_of_closeTag hc w
  have hreach : c.Reaches c₂.skipBlank := (reaches_of_openTag ho).trans <|
    (consumes_argument levels ha).1.trans (Cursor.reaches_skipBlank c₂)
  obtain ⟨c₁',ho',ht₁⟩ := (ht.narrow hreach).openTag hv hw (by decide) ho
  obtain ⟨c₂',ha',ht₂⟩ := carries_argument hv hw levels ha ht₁ (Cursor.length_skipBlank_le c₂)
  obtain ⟨d',hc',ht'⟩ := ht₂.closeTag hc
  exact ⟨d',printBlock_eq_ok.mpr ⟨c₁',_,c₂',ho',ha',hc',rfl⟩,ht'⟩

/-- There is a closing brace to come, which a direction may stop at. -/
theorem carries_direction {v : Text} {side : Direction} (hv : Closed v) (hw : Closed (v ++ w))
    (h : direction c = .ok (side,d)) (ht : Twins v (v ++ w) k c c') (hne : c.rest ≠ []) :
    ∃ d', direction c' = .ok (side,d') ∧ Twins v (v ++ w) k d d' := by
  have hhead := ht.widen.head?_eq hne
  rcases direction_eq_ok.mp h with ⟨hc,rfl,rfl⟩ | ⟨hc,hs,rfl⟩
  · exact ⟨c',direction_eq_ok.mpr (Or.inl ⟨hhead.trans hc,rfl,rfl⟩),ht⟩
  · obtain ⟨u,hu,hu'⟩ := ht.same
    have hname : nameAt c.rest = nameAt u := by rw [hu,nameAt_append_of_begins isStop_brace hv]
    have hname' : nameAt c'.rest = nameAt u := by rw [hu',nameAt_append_of_begins isStop_brace hw]
    have hle := length_nameAt_le u
    refine ⟨_,direction_eq_ok.mpr (Or.inr ⟨by rwa [hhead],by rw [hname',← hname,hs],rfl⟩),?_⟩
    rw [hname,hname']
    refine ht.advance ?_
    rw [hu,List.length_append]
    omega

theorem carries_trimBlock {x : Block} (h : trimBlock c = .ok (x,d)) (ht : Twins [] w k c c') :
    ∃ d', trimBlock c' = .ok (x,d') ∧ Twins [] w k d d' := by
  obtain ⟨c₁,side,c₂,ho,hs,hc,rfl⟩ := trimBlock_eq_ok.mp h
  obtain ⟨hv,hw⟩ := closed_of_closeTag hc w
  have hreach₁ : c₁.Reaches c₂.skipBlank := (moves_direction hs).trans (Cursor.reaches_skipBlank c₂)
  have hne : c₁.rest ≠ [] := by
    intro hnil
    have hle := hreach₁.length_le
    obtain ⟨⟨s,hclose⟩,_⟩ := expect_eq_ok.mp hc
    rw [hnil,← hclose] at hle
    exact absurd hle (by simp [closeToken])
  obtain ⟨c₁',ho',ht₁⟩ := (ht.narrow ((reaches_of_openTag ho).trans hreach₁)).openTag hv hw (by decide) ho
  obtain ⟨c₂',hs',ht₂⟩ := carries_direction hv hw hs ht₁ hne
  obtain ⟨d',hc',ht'⟩ := ht₂.closeTag hc
  exact ⟨d',trimBlock_eq_ok.mpr ⟨c₁',side,c₂',ho',hs',hc',rfl⟩,ht'⟩

theorem carries_newlineBlock {x : Block} (h : newlineBlock c = .ok (x,d)) (ht : Twins [] w k c c') :
    ∃ d', newlineBlock c' = .ok (x,d') ∧ Twins [] w k d d' := by
  obtain ⟨c₁,ho,hc,rfl⟩ := newlineBlock_eq_ok.mp h
  obtain ⟨hv,hw⟩ := closed_of_closeTag hc w
  have hreach := (reaches_of_openTag ho).trans (Cursor.reaches_skipBlank c₁)
  obtain ⟨c₁',ho',ht₁⟩ := (ht.narrow hreach).openTag hv hw (by decide) ho
  obtain ⟨d',hc',ht'⟩ := ht₁.closeTag hc
  exact ⟨d',newlineBlock_eq_ok.mpr ⟨c₁',ho',hc',rfl⟩,ht'⟩

/-- A body that does not take up all of the text is read again whatever is added. -/
def CarriesBodies (w : Text) (k : Nat) (inner : Reading (List Block)) : Prop :=
  ∀ ⦃c c' d xs⦄, inner c = .ok (xs,d) → Twins [] w k c c' → d.rest ≠ [] →
    ∃ d', inner c' = .ok (xs.map (Block.relocate (· + k)),d') ∧ Twins [] w k d d'

theorem rest_ne_nil_of_endTag {directive : Text} (h : endTag directive c = .ok d) : c.rest ≠ [] := by
  obtain ⟨⟨s,hs⟩,_⟩ := expect_eq_ok.mp h
  rw [← hs]
  exact List.cons_ne_nil _ _

theorem carries_branchBlock (hb : CarriesBodies w k inner) {x : Block}
    (h : branchBlock (condition levels) inner c = .ok (x,d)) (ht : Twins [] w k c c') :
    ∃ d', branchBlock (condition levels) inner c' = .ok (x.relocate (· + k),d') ∧
      Twins [] w k d d' := by
  obtain ⟨c₁,test,c₂,c₃,blocks,c₄,ho,hx,hc,hxs,he,rfl⟩ := branchBlock_eq_ok.mp h
  obtain ⟨hv,hw⟩ := closed_of_closeTag hc w
  have hreach : c.Reaches c₂.skipBlank := (reaches_of_openTag ho).trans <|
    (moves_condition levels hx).trans (Cursor.reaches_skipBlank c₂)
  obtain ⟨c₁',ho',ht₁⟩ := (ht.narrow hreach).openTag hv hw (by decide) ho
  obtain ⟨c₂',hx',ht₂⟩ := carries_condition hv hw levels hx ht₁ (Cursor.length_skipBlank_le c₂)
  obtain ⟨c₃',hc',ht₃⟩ := ht₂.closeTag hc
  obtain ⟨c₄',hxs',ht₄⟩ := hb hxs ht₃ (rest_ne_nil_of_endTag he)
  obtain ⟨d',he',ht'⟩ := ht₄.expect_again he
  refine ⟨d',branchBlock_eq_ok.mpr ⟨c₁',_,c₂',c₃',_,c₄',ho',hx',hc',hxs',he',?_⟩,ht'⟩
  rw [Block.relocate,blocksRelocate_eq_map]

theorem carries_loopBlock (hb : CarriesBodies w k inner) {x : Block}
    (h : loopBlock (argument levels) (array levels) inner c = .ok (x,d)) (ht : Twins [] w k c c') :
    ∃ d', loopBlock (argument levels) (array levels) inner c' = .ok (x.relocate (· + k),d') ∧
      Twins [] w k d d' := by
  obtain ⟨c₁,target,c₂,source,c₃,c₄,blocks,c₅,ho,hn,hs,hc,hxs,he,rfl⟩ := loopBlock_eq_ok.mp h
  obtain ⟨hv,hw⟩ := closed_of_closeTag hc w
  have hmove := moves_loopSource (consumes_argument levels).moves (consumes_array levels).moves hs
  have hreach : c.Reaches c₃.skipBlank := (reaches_of_openTag ho).trans <|
    (consumes_name _ hn).1.trans <| (Cursor.reaches_skipBlank c₂).trans <|
      hmove.trans (Cursor.reaches_skipBlank c₃)
  obtain ⟨c₁',ho',ht₁⟩ := (ht.narrow hreach).openTag hv hw (by decide) ho
  obtain ⟨c₂',hn',ht₂⟩ := ht₁.name hv hw isStop_brace hn
  obtain ⟨c₃',hs',ht₃⟩ :=
    carries_loopSource hv hw hs (ht₂.skipBlank hv hw) (Cursor.length_skipBlank_le c₃)
  obtain ⟨c₄',hc',ht₄⟩ := ht₃.closeTag hc
  obtain ⟨c₅',hxs',ht₅⟩ := hb hxs ht₄ (rest_ne_nil_of_endTag he)
  obtain ⟨d',he',ht'⟩ := ht₅.expect_again he
  refine ⟨d',loopBlock_eq_ok.mpr ⟨c₁',target,c₂',_,c₃',c₄',_,c₅',ho',hn',hs',hc',hxs',he',?_⟩,ht'⟩
  rw [Block.relocate,blocksRelocate_eq_map]

theorem carries_directive (hb : CarriesBodies w k inner) {entry : Text × Reading Block} {x : Block}
    (hm : entry ∈ directives levels inner) (h : entry.2 c = .ok (x,d)) (ht : Twins [] w k c c') :
    ∃ d', entry.2 c' = .ok (x.relocate (· + k),d') ∧ Twins [] w k d d' := by
  simp only [directives,List.mem_cons,List.not_mem_nil,or_false] at hm
  rcases hm with rfl | rfl | rfl | rfl | rfl | rfl | rfl
  · exact carries_branchBlock hb h ht
  · exact carries_loopBlock hb h ht
  · obtain ⟨target,arg,ha,rfl⟩ := setBlock_eq_ok.mp h
    obtain ⟨d',ha',ht'⟩ := carries_assignment (by decide) ha ht
    exact ⟨d',setBlock_eq_ok.mpr ⟨target,_,ha',rfl⟩,ht'⟩
  · obtain ⟨d',hx',ht'⟩ := carries_trimBlock h ht
    obtain ⟨_,side,_,_,_,_,rfl⟩ := trimBlock_eq_ok.mp h
    exact ⟨d',hx',ht'⟩
  · obtain ⟨d',hx',ht'⟩ := carries_newlineBlock h ht
    obtain ⟨_,_,_,rfl⟩ := newlineBlock_eq_ok.mp h
    exact ⟨d',hx',ht'⟩
  · exact carries_printBlock h ht
  · obtain ⟨target,arg,ha,rfl⟩ := confBlock_eq_ok.mp h
    obtain ⟨d',ha',ht'⟩ := carries_assignment (by decide) ha ht
    exact ⟨d',confBlock_eq_ok.mpr ⟨target,_,ha',rfl⟩,ht'⟩

/-- One round. Only a text that runs to the end may go on into what is added. -/
theorem carries_block (hb : CarriesBodies w k inner) {x : Block} (hat : atBlock c = true)
    (h : blockWith levels inner c = .ok (x,d)) (ht : Twins [] w k c c')
    (hs : x.isText = true → d.rest ≠ [] ∨ EndsText w) :
    ∃ d', atBlock c' = true ∧ blockWith levels inner c' = .ok (x.relocate (· + k),d') ∧
      Twins [] w k d d' := by
  have hne : c.rest ≠ [] := by
    intro hc
    simp [atBlock,Cursor.atEnd,hc] at hat
  have hhead := ht.head?_eq hne
  simp only [blockWith] at h
  split at h
  · obtain ⟨entry,hm,hp,hx⟩ := directiveWith_eq_ok.mp h
    obtain ⟨d',hx',ht'⟩ := carries_directive hb hm hx ht
    have hp' := ht.prefix_again hp
    exact ⟨d',atBlock_of_mem_directives hm hp',by rw [blockWith_of_mem hm hp',hx'],ht'⟩
  · next hbrace =>
    have hne' : c'.rest ≠ [] := by
      rw [ht.rest_eq]
      exact List.append_ne_nil_of_left_ne_nil hne w
    have htext : x.isText = true ∧ x.relocate (· + k) = x := by
      rcases textBlock_eq_ok.mp h with ⟨_,_,_,_,rfl,_⟩ | ⟨_,rfl,_⟩ <;> exact ⟨rfl,rfl⟩
    obtain ⟨d',hx',ht'⟩ := carries_textBlock h hne ht (hs htext.1)
    rw [← hhead] at hbrace
    exact ⟨d',atBlock_of_head_ne hne' hbrace,by rw [blockWith,if_neg hbrace,hx',htext.2],ht'⟩

/-- Round by round up to an end tag, or to the end of the text if what is added ends the blocks. -/
theorem carries_blockRounds (hm : Moves inner) (hb : CarriesBodies w k inner) {xs : List Block}
    (h : Rounds atBlock (blockWith levels inner) c xs d) (ht : Twins [] w k c c')
    (hs : d.rest ≠ [] ∨ EndsBlocks w) :
    ∃ d', Rounds atBlock (blockWith levels inner) c' (xs.map (Block.relocate (· + k))) d' ∧
      Twins [] w k d d' := by
  induction h generalizing c' with
  | @stop c h =>
    exact ⟨c',.stop (((endsBlocks_of_atBlock h).append hs).atBlock ht.rest_eq),ht⟩
  | @next c c₁ d x xs hat hx hxs ih =>
    -- what is left where the rounds stop was left after each of them
    have hguard : c₁.rest ≠ [] ∨ EndsText w := by
      refine hs.imp (fun hs hnil => hs ?_) EndsBlocks.endsText
      have hle := (hxs.reaches (repeats_blockWith levels hm)).length_le
      rw [hnil] at hle
      exact List.length_eq_zero_iff.mp (Nat.le_zero.mp hle)
    obtain ⟨c₁',hat',hx',ht₁⟩ := carries_block hb hat hx ht fun _ => hguard
    obtain ⟨d',hxs',ht'⟩ := ih ht₁ hs
    exact ⟨d',.next hat' hx' hxs',ht'⟩

theorem carriesBodies_body (w : Text) (k levels : Nat) : CarriesBodies w k (body levels) := by
  induction levels with
  | zero =>
    intro c c' d xs h
    cases h
  | succ levels ih =>
    intro c c' d xs h ht hd
    obtain ⟨d',hxs',ht'⟩ :=
      carries_blockRounds (moves_body levels) ih (blocks_eq_ok.mp h) ht (Or.inl hd)
    exact ⟨d',blocks_eq_ok.mpr hxs',ht'⟩

end Stencil.Grammar

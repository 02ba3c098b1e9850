import Stencil.Grammar.Document
import Stencil.Proofs.Reading.Condition

/-! # When blocks are read

The known directives form a table from opening letters to readings. No opening token is
the beginning of another, so that at most one entry of the table fits at a cursor and the
order of the table does not matter.
-/
namespace Stencil.Grammar
variable {c d : Cursor} {s : Text} {inner : Reading (List Block)}

theorem openTag_eq_ok {directive : Text} : openTag directive c = .ok d ↔
    openToken directive <+: c.rest ∧ d = (c.advance (openToken directive).length).skipBlank := by
  simp only [openTag,bind_eq_ok,pure,Except.pure,Except.ok.injEq,expect_eq_ok]
  constructor
  · rintro ⟨c₁,⟨hp,rfl⟩,rfl⟩
    exact ⟨hp,rfl⟩
  · rintro ⟨hp,rfl⟩
    exact ⟨_,⟨hp,rfl⟩,rfl⟩

theorem reaches_of_openTag {directive : Text} (h : openTag directive c = .ok d) : c.Reaches d := by
  obtain ⟨_,rfl⟩ := openTag_eq_ok.mp h
  exact (Cursor.reaches_advance _ c).trans (Cursor.reaches_skipBlank _)

theorem length_of_openTag {directive : Text} (h : openTag directive c = .ok d) :
    d.rest.length < c.rest.length := by
  obtain ⟨⟨s,hs⟩,rfl⟩ := openTag_eq_ok.mp h
  have hle := Cursor.length_skipBlank_le (c.advance (openToken directive).length)
  have hpos : 0 < (openToken directive).length := by simp [openToken]
  rw [Cursor.rest_advance_of_append hs.symm] at hle
  rw [← hs,List.length_append]
  omega

theorem reaches_of_closeTag (h : closeTag c = .ok d) : c.Reaches d :=
  (Cursor.reaches_skipBlank c).trans (reaches_of_expect h)

/-- A run of text ends before `s`. -/
def EndsText (s : Text) : Prop := ∀ x ∈ s.head?, isTextChar x = false

theorem takeWhile_append_of_ends {t : Text} (ht : ∀ x ∈ t, isTextChar x = true) (hs : EndsText s) :
    (t ++ s).takeWhile isTextChar = t ∧ (t ++ s).dropWhile isTextChar = s := by
  rw [List.takeWhile_append_of_pos ht,List.dropWhile_append_of_pos ht]
  cases s with
  | nil => simp
  | cons x s => simp [hs x rfl]

theorem textBlock_eq_ok {x : Block} : textBlock c = .ok (x,d) ↔
    (∃ p q s, c.rest = '\\' :: p :: q :: s ∧ .text (p :: q :: s.takeWhile isTextChar) = x ∧
      (c.advance 3).skipWhile isTextChar = d) ∨
    (c.rest.head? ≠ some '\\' ∧ .text (c.rest.takeWhile isTextChar) = x ∧
      c.skipWhile isTextChar = d) := by
  unfold textBlock
  split
  · next h =>
    obtain ⟨s,hs⟩ := List.head?_eq_some_iff.mp h
    have hrest : (c.advance 1).rest = s := by rw [Cursor.rest_advance,hs,List.drop_one,List.tail_cons]
    simp only [bind_eq_ok,Prod.exists,pure,Except.pure,Except.ok.injEq,Prod.mk.injEq,take_eq_ok,
      Cursor.advance_advance,Nat.reduceAdd,hrest,h,ne_eq,not_true_eq_false,false_and,or_false]
    constructor
    · rintro ⟨_,_,⟨hle,rfl,rfl⟩,hx,hd⟩
      rcases s with _ | ⟨p,_ | ⟨q,s⟩⟩
      · simp at hle
      · simp at hle
      · refine ⟨p,q,s,hs,?_,hd⟩
        simpa [takeWhile,Cursor.rest_advance,hs] using hx
    · rintro ⟨p,q,s',hs',hx,hd⟩
      obtain rfl := (List.cons.inj (hs.symm.trans hs')).2
      refine ⟨[p,q],c.advance 3,⟨by simp,by simp,rfl⟩,?_,hd⟩
      simpa [takeWhile,Cursor.rest_advance,hs] using hx
  · next h =>
    have hn : ¬∃ p q s, c.rest = '\\' :: p :: q :: s ∧ Block.text (p :: q :: s.takeWhile isTextChar) = x ∧
        (c.advance 3).skipWhile isTextChar = d := by
      rintro ⟨p,q,s,hs,_⟩
      simp [hs] at h
    simp [h,hn,takeWhile,pure,Except.pure]

theorem moves_textBlock : Moves textBlock := by
  intro c x d h
  rcases textBlock_eq_ok.mp h with ⟨_,_,_,_,_,rfl⟩ | ⟨_,_,rfl⟩
  · exact (Cursor.reaches_advance 3 c).trans (Cursor.reaches_skipWhile _ _)
  · exact Cursor.reaches_skipWhile _ c

theorem length_of_textBlock {x : Block} (h : textBlock c = .ok (x,d)) (hc : c.rest ≠ [])
    (hb : c.rest.head? ≠ some '\x7b') : d.rest.length < c.rest.length := by
  rcases textBlock_eq_ok.mp h with ⟨p,q,s,hs,_,rfl⟩ | ⟨hn,_,rfl⟩
  · have hle := (Cursor.reaches_skipWhile isTextChar (c.advance 3)).length_le
    rw [Cursor.rest_advance,hs] at hle
    simp only [List.drop_succ_cons,List.drop_zero] at hle
    simp only [hs,List.length_cons]
    omega
  · obtain ⟨y,s,hs⟩ := List.exists_cons_of_ne_nil hc
    have hy : isTextChar y = true := by
      simp only [hs,List.head?_cons,ne_eq,Option.some.injEq] at hb hn
      simp [isTextChar,hb,hn]
    rw [Cursor.rest_skipWhile,hs,List.dropWhile_cons,if_pos hy]
    have hle := (List.dropWhile_suffix (l := s) isTextChar).length_le
    simp only [List.length_cons]
    omega

theorem assignment_eq_ok {argument : Reading Arg} {directive target : Text} {arg : Arg} :
    assignment argument directive c = .ok ((target,arg),d) ↔ ∃ c₁ c₂ c₃ c₄,
      openTag directive c = .ok c₁ ∧ name .noName c₁ = .ok (target,c₂) ∧
      expect .symbol ['='] c₂.skipBlank = .ok c₃ ∧ argument c₃.skipBlank = .ok (arg,c₄) ∧
      closeTag c₄ = .ok d := by
  simp only [assignment,bind_eq_ok,Prod.exists,pure,Except.pure,Except.ok.injEq,Prod.mk.injEq]
  constructor
  · rintro ⟨c₁,ho,_,c₂,hn,c₃,he,_,c₄,ha,_,hc,⟨rfl,rfl⟩,rfl⟩
    exact ⟨c₁,c₂,c₃,c₄,ho,hn,he,ha,hc⟩
  · rintro ⟨c₁,c₂,c₃,c₄,ho,hn,he,ha,hc⟩
    exact ⟨c₁,ho,_,c₂,hn,c₃,he,_,c₄,ha,_,hc,⟨rfl,rfl⟩,rfl⟩

theorem setBlock_eq_ok {argument : Reading Arg} {x : Block} : setBlock argument c = .ok (x,d) ↔
    ∃ target arg, assignment argument "set".toList c = .ok ((target,arg),d) ∧ .set target arg = x := by
  simp [setBlock,bind_eq_ok,pure,Except.pure]

theorem confBlock_eq_ok {argument : Reading Arg} {x : Block} : confBlock argument c = .ok (x,d) ↔
    ∃ target arg, assignment argument "conf".toList c = .ok ((target,arg),d) ∧
      .conf target arg = x := by
  simp [confBlock,bind_eq_ok,pure,Except.pure]

theorem printBlock_eq_ok {argument : Reading Arg} {x : Block} : printBlock argument c = .ok (x,d) ↔
    ∃ c₁ arg c₂, openTag [':'] c = .ok c₁ ∧ argument c₁ = .ok (arg,c₂) ∧ closeTag c₂ = .ok d ∧
      .print arg = x := by
  simp [printBlock,bind_eq_ok,pure,Except.pure]

theorem direction_eq_ok {x : Direction} : direction c = .ok (x,d) ↔
    (c.rest.head? = some '\x7d' ∧ .both = x ∧ c = d) ∨
    (c.rest.head? ≠ some '\x7d' ∧ Direction.ofName? (nameAt c.rest) = some x ∧
      c.advance (nameAt c.rest).length = d) := by
  unfold direction
  split
  · next h => simp [h]
  · next h =>
    simp only [optionalName,h,false_and,false_or,not_false_eq_true,true_and,ne_eq]
    cases Direction.ofName? (nameAt c.rest) <;> simp

theorem trimBlock_eq_ok {x : Block} : trimBlock c = .ok (x,d) ↔
    ∃ c₁ side c₂, openTag "trim".toList c = .ok c₁ ∧ direction c₁ = .ok (side,c₂) ∧
      closeTag c₂ = .ok d ∧ .trim side = x := by
  simp [trimBlock,bind_eq_ok,pure,Except.pure]

theorem newlineBlock_eq_ok {x : Block} : newlineBlock c = .ok (x,d) ↔
    ∃ c₁, openTag "nl".toList c = .ok c₁ ∧ closeTag c₁ = .ok d ∧ .newline = x := by
  simp [newlineBlock,bind_eq_ok,pure,Except.pure]

theorem peek_eq_iff (token : Text) : c.peek token.length = token ↔ token <+: c.rest := by
  rw [List.prefix_iff_eq_take,Cursor.peek]
  exact eq_comm

theorem loopSource_eq_ok {argument : Reading Arg} {array : Reading (List Arg)} {x : LoopSource} :
    loopSource argument array c = .ok (x,d) ↔
      ("in".toList <+: c.rest ∧ ∃ first c₁ c₂ last,
        argument (c.advance 2).skipBlank = .ok (first,c₁) ∧
        expect .rangeSeparator ['.','.'] c₁ = .ok c₂ ∧ argument c₂ = .ok (last,d) ∧
        .range first last = x) ∨
      ("of".toList <+: c.rest ∧ ∃ items, array (c.advance 2).skipBlank = .ok (items,d) ∧
        .items items = x) := by
  have hin : c.peek 2 = "in".toList ↔ "in".toList <+: c.rest := peek_eq_iff "in".toList
  have hof : c.peek 2 = "of".toList ↔ "of".toList <+: c.rest := peek_eq_iff "of".toList
  simp only [loopSource,← hin,← hof]
  generalize c.peek 2 = kind
  by_cases h : kind = "in".toList
  · subst h
    simp [bind_eq_ok,pure,Except.pure]
  · by_cases h' : kind = "of".toList
    · subst h'
      simp [bind_eq_ok,pure,Except.pure]
    · rw [if_neg h,if_neg h']
      simp only [h,h',false_and,or_self,iff_false]
      split <;> simp

theorem branchBlock_eq_ok {condition : Reading Condition} {x : Block} :
    branchBlock condition inner c = .ok (x,d) ↔ ∃ c₁ test c₂ c₃ blocks c₄,
      openTag "if".toList c = .ok c₁ ∧ condition c₁ = .ok (test,c₂) ∧ closeTag c₂ = .ok c₃ ∧
      inner c₃ = .ok (blocks,c₄) ∧ endTag "if".toList c₄ = .ok d ∧ .branch test blocks = x := by
  simp [branchBlock,bind_eq_ok,pure,Except.pure]

theorem loopBlock_eq_ok {argument : Reading Arg} {array : Reading (List Arg)} {x : Block} :
    loopBlock argument array inner c = .ok (x,d) ↔ ∃ c₁ target c₂ source c₃ c₄ blocks c₅,
      openTag "for".toList c = .ok c₁ ∧ name .noName c₁ = .ok (target,c₂) ∧
      loopSource argument array c₂.skipBlank = .ok (source,c₃) ∧ closeTag c₃ = .ok c₄ ∧
      inner c₄ = .ok (blocks,c₅) ∧ endTag "for".toList c₅ = .ok d ∧ .loop target source blocks = x := by
  simp [loopBlock,bind_eq_ok,pure,Except.pure]

/-- The known directives with what reads them. -/
def directives (levels : Nat) (inner : Reading (List Block)) : List (Text × Reading Block) :=
  [("if".toList,branchBlock (condition levels) inner),
   ("for".toList,loopBlock (argument levels) (array levels) inner),
   ("set".toList,setBlock (argument levels)), ("trim".toList,trimBlock),
   ("nl".toList,newlineBlock), ([':'],printBlock (argument levels)),
   ("conf".toList,confBlock (argument levels))]

/-- Reads with the first entry of a table whose opening token stands at the cursor. -/
def dispatch (otherwise : Fault) : List (Text × Reading Block) → Reading Block
  | [], _ => .error otherwise
  | entry :: table, c =>
    if c.startsWith (openToken entry.1) then entry.2 c else dispatch otherwise table c

theorem directiveWith_eq (levels : Nat) (c : Cursor) :
    directiveWith levels inner c = dispatch (unknownBlock c) (directives levels inner) c := rfl

theorem dispatch_of_mem {otherwise : Fault} {table : List (Text × Reading Block)}
    {entry : Text × Reading Block} (hm : entry ∈ table)
    (hu : ∀ p ∈ table, openToken p.1 <+: c.rest ↔ p = entry) :
    dispatch otherwise table c = entry.2 c := by
  induction table with
  | nil => simp at hm
  | cons p table ih =>
    have hp := Cursor.startsWith_iff.trans (hu p List.mem_cons_self)
    simp only [dispatch]
    split
    · next h => rw [hp.mp h]
    · next h =>
      have hm' : entry ∈ table := (List.mem_cons.mp hm).resolve_left fun he => h (hp.mpr he.symm)
      exact ih hm' fun q hq => hu q (List.mem_cons_of_mem p hq)

theorem exists_of_dispatch_eq_ok {otherwise : Fault} {table : List (Text × Reading Block)}
    {x : Block} (h : dispatch otherwise table c = .ok (x,d)) :
    ∃ entry ∈ table, openToken entry.1 <+: c.rest ∧ entry.2 c = .ok (x,d) := by
  induction table with
  | nil => simp [dispatch] at h
  | cons p table ih =>
    simp only [dispatch,Cursor.startsWith_iff] at h
    split at h
    · next ho => exact ⟨p,List.mem_cons_self,ho,h⟩
    · obtain ⟨entry,hm,ho,he⟩ := ih h
      exact ⟨entry,List.mem_cons_of_mem p hm,ho,he⟩

/-- No opening token begins another one. -/
theorem eq_of_openToken_le {levels : Nat} {p q : Text × Reading Block}
    (hp : p ∈ directives levels inner) (hq : q ∈ directives levels inner)
    (h : openToken p.1 <+: openToken q.1) : p = q := by
  simp only [directives,List.mem_cons,List.not_mem_nil,or_false] at hp hq
  rcases hp with rfl | rfl | rfl | rfl | rfl | rfl | rfl <;>
    rcases hq with rfl | rfl | rfl | rfl | rfl | rfl | rfl <;>
      first | rfl | exact absurd h (by dsimp only; decide)

theorem directiveWith_of_mem {levels : Nat} {entry : Text × Reading Block}
    (hm : entry ∈ directives levels inner) (h : openToken entry.1 <+: c.rest) :
    directiveWith levels inner c = entry.2 c := by
  rw [directiveWith_eq]
  refine dispatch_of_mem hm fun p hp => ⟨fun ho => ?_,fun he => he ▸ h⟩
  rcases List.prefix_or_prefix_of_prefix ho h with hpre | hpre
  · exact eq_of_openToken_le hp hm hpre
  · exact (eq_of_openToken_le hm hp hpre).symm

theorem directiveWith_eq_ok {levels : Nat} {x : Block} :
    directiveWith levels inner c = .ok (x,d) ↔
      ∃ entry ∈ directives levels inner, openToken entry.1 <+: c.rest ∧ entry.2 c = .ok (x,d) := by
  constructor
  · intro h
    exact exists_of_dispatch_eq_ok ((directiveWith_eq levels c).symm.trans h)
  · rintro ⟨entry,hm,ho,h⟩
    rw [directiveWith_of_mem hm ho,h]

theorem atBlock_of_head_ne (hne : c.rest ≠ []) (hb : c.rest.head? ≠ some '\x7b') :
    atBlock c = true := by
  obtain ⟨y,r,hr⟩ := List.exists_cons_of_ne_nil hne
  have hend : c.startsWith (openToken ['/']) = false := by
    rw [← Bool.not_eq_true,Cursor.startsWith_iff,hr]
    exact fun hp => hb (by rw [hr,← (List.cons_prefix_cons.mp hp).1,List.head?_cons])
  rw [atBlock,hend,Cursor.atEnd,hr]
  rfl

/-- A sequence of blocks ends before `s`. -/
def EndsBlocks (s : Text) : Prop := s = [] ∨ openToken ['/'] <+: s

theorem EndsBlocks.atBlock {s : Text} (hs : EndsBlocks s) (hc : c.rest = s) : atBlock c = false := by
  rcases hs with rfl | hs
  · simp [Grammar.atBlock,Cursor.atEnd,hc]
  · rw [← hc] at hs
    simp [Grammar.atBlock,Cursor.startsWith_iff.mpr hs]

theorem EndsBlocks.endsText {s : Text} (hs : EndsBlocks s) : EndsText s := by
  rcases hs with rfl | ⟨r,rfl⟩
  · intro x hx
    cases hx
  · rintro x ⟨⟩
    decide

theorem endsBlocks_endToken (directive s : Text) : EndsBlocks (endToken directive ++ s) :=
  Or.inr ⟨directive ++ closeToken ++ s,rfl⟩

theorem endsBlocks_of_atBlock (h : Grammar.atBlock c = false) : EndsBlocks c.rest := by
  by_cases hc : c.rest = []
  · exact Or.inl hc
  · refine Or.inr (Cursor.startsWith_iff.mp ?_)
    simpa [Grammar.atBlock,Cursor.atEnd,hc] using h

theorem EndsBlocks.append {s w : Text} (hs : EndsBlocks s) (hw : s ≠ [] ∨ EndsBlocks w) :
    EndsBlocks (s ++ w) := by
  rcases hs with rfl | hs
  · rcases hw with hw | hw
    · exact absurd rfl hw
    · exact hw
  · exact Or.inr (hs.trans (List.prefix_append s w))

/-- An end tag is no directive. -/
theorem atBlock_of_mem_directives {entry : Text × Reading Block}
    (hm : entry ∈ directives levels inner) (h : openToken entry.1 <+: c.rest) : atBlock c = true := by
  have hend : ¬ openToken ['/'] <+: c.rest := by
    intro he
    simp only [directives,List.mem_cons,List.not_mem_nil,or_false] at hm
    rcases List.prefix_or_prefix_of_prefix h he with hp | hp <;>
      rcases hm with rfl | rfl | rfl | rfl | rfl | rfl | rfl <;>
        exact absurd hp (by dsimp only; decide)
  have hstart : c.startsWith (openToken ['/']) = false := by
    rw [← Bool.not_eq_true,Cursor.startsWith_iff]
    exact hend
  obtain ⟨r,hr⟩ := h
  have hnil : c.atEnd = false := by
    rw [Cursor.atEnd,← hr]
    rfl
  rw [atBlock,hnil,hstart]
  rfl

theorem blockWith_of_mem {entry : Text × Reading Block} (hm : entry ∈ directives levels inner)
    (h : openToken entry.1 <+: c.rest) : blockWith levels inner c = entry.2 c := by
  obtain ⟨r,hr⟩ := h
  have hhead : c.rest.head? = some '\x7b' := by
    rw [← hr]
    rfl
  rw [blockWith,if_pos hhead,directiveWith_of_mem hm ⟨r,hr⟩]

theorem reaches_of_assignment {argument : Reading Arg} (ha : Moves argument)
    {directive target : Text} {arg : Arg}
    (h : assignment argument directive c = .ok ((target,arg),d)) :
    c.Reaches d ∧ d.rest.length < c.rest.length := by
  obtain ⟨c₁,c₂,c₃,c₄,ho,hn,he,hr,hc⟩ := assignment_eq_ok.mp h
  have hd : c₁.Reaches d := (consumes_name _ hn).1.trans <|
    (Cursor.reaches_skipBlank c₂).trans <| (reaches_of_expect he).trans <|
      (Cursor.reaches_skipBlank c₃).trans <| (ha hr).trans (reaches_of_closeTag hc)
  have hle := hd.length_le
  have hlt := length_of_openTag ho
  exact ⟨(reaches_of_openTag ho).trans hd,by omega⟩

theorem moves_direction : Moves direction := by
  intro c x d h
  rcases direction_eq_ok.mp h with ⟨_,_,rfl⟩ | ⟨_,_,rfl⟩
  · exact Cursor.Reaches.refl c
  · exact Cursor.reaches_advance _ c

theorem moves_loopSource {argument : Reading Arg} {array : Reading (List Arg)}
    (ha : Moves argument) (hi : Moves array) : Moves (loopSource argument array) := by
  intro c x d h
  have hstart := (Cursor.reaches_advance 2 c).trans (Cursor.reaches_skipBlank _)
  rcases loopSource_eq_ok.mp h with ⟨_,first,c₁,c₂,last,hf,he,hl,_⟩ | ⟨_,items,hr,_⟩
  · exact hstart.trans <| (ha hf).trans <| (reaches_of_expect he).trans (ha hl)
  · exact hstart.trans (hi hr)

theorem consumes_branchBlock {condition : Reading Condition} (hc : Moves condition)
    (hm : Moves inner) : Consumes (branchBlock condition inner) := by
  intro c x d h
  obtain ⟨c₁,test,c₂,c₃,blocks,c₄,ho,ht,hcl,hb,he,_⟩ := branchBlock_eq_ok.mp h
  have hd : c₁.Reaches d := (hc ht).trans <| (reaches_of_closeTag hcl).trans <|
    (hm hb).trans (reaches_of_expect he)
  have hle := hd.length_le
  have hlt := length_of_openTag ho
  exact ⟨(reaches_of_openTag ho).trans hd,by omega⟩

theorem consumes_loopBlock {argument : Reading Arg} {array : Reading (List Arg)}
    (ha : Moves argument) (hi : Moves array) (hm : Moves inner) :
    Consumes (loopBlock argument array inner) := by
  intro c x d h
  obtain ⟨c₁,target,c₂,source,c₃,c₄,blocks,c₅,ho,hn,hs,hcl,hb,he,_⟩ := loopBlock_eq_ok.mp h
  have hd : c₁.Reaches d := (consumes_name _ hn).1.trans <|
    (Cursor.reaches_skipBlank c₂).trans <| (moves_loopSource ha hi hs).trans <|
      (reaches_of_closeTag hcl).trans <| (hm hb).trans (reaches_of_expect he)
  have hle := hd.length_le
  have hlt := length_of_openTag ho
  exact ⟨(reaches_of_openTag ho).trans hd,by omega⟩

theorem consumes_trimBlock : Consumes trimBlock := by
  intro c x d h
  obtain ⟨c₁,side,c₂,ho,hs,hc,_⟩ := trimBlock_eq_ok.mp h
  have hd := (moves_direction hs).trans (reaches_of_closeTag hc)
  have hle := hd.length_le
  have hlt := length_of_openTag ho
  exact ⟨(reaches_of_openTag ho).trans hd,by omega⟩

theorem consumes_newlineBlock : Consumes newlineBlock := by
  intro c x d h
  obtain ⟨c₁,ho,hc,_⟩ := newlineBlock_eq_ok.mp h
  have hd := reaches_of_closeTag hc
  have hle := hd.length_le
  have hlt := length_of_openTag ho
  exact ⟨(reaches_of_openTag ho).trans hd,by omega⟩

theorem consumes_printBlock {argument : Reading Arg} (ha : Moves argument) :
    Consumes (printBlock argument) := by
  intro c x d h
  obtain ⟨c₁,arg,c₂,ho,hr,hc,_⟩ := printBlock_eq_ok.mp h
  have hd := (ha hr).trans (reaches_of_closeTag hc)
  have hle := hd.length_le
  have hlt := length_of_openTag ho
  exact ⟨(reaches_of_openTag ho).trans hd,by omega⟩

theorem consumes_of_mem_directives {levels : Nat} (hm : Moves inner)
    {entry : Text × Reading Block} (he : entry ∈ directives levels inner) : Consumes entry.2 := by
  have ha := (consumes_argument levels).moves
  have hi := (consumes_array levels).moves
  simp only [directives,List.mem_cons,List.not_mem_nil,or_false] at he
  rcases he with rfl | rfl | rfl | rfl | rfl | rfl | rfl
  · exact consumes_branchBlock (moves_condition levels) hm
  · exact consumes_loopBlock ha hi hm
  · intro c x d h
    obtain ⟨target,arg,hs,_⟩ := setBlock_eq_ok.mp h
    exact reaches_of_assignment ha hs
  · exact consumes_trimBlock
  · exact consumes_newlineBlock
  · exact consumes_printBlock ha
  · intro c x d h
    obtain ⟨target,arg,hs,_⟩ := confBlock_eq_ok.mp h
    exact reaches_of_assignment ha hs

theorem consumes_directiveWith (levels : Nat) (hm : Moves inner) :
    Consumes (directiveWith levels inner) := by
  intro c x d h
  obtain ⟨entry,he,_,hx⟩ := directiveWith_eq_ok.mp h
  exact consumes_of_mem_directives hm he hx

theorem repeats_blockWith (levels : Nat) (hm : Moves inner) :
    Repeats atBlock (blockWith levels inner) where
  stops c h := by simp [atBlock,Cursor.atEnd,h]
  consumes c x d ht h := by
    have hc : c.rest ≠ [] := by
      intro hc
      simp [atBlock,Cursor.atEnd,hc] at ht
    simp only [blockWith] at h
    split at h
    · exact consumes_directiveWith levels hm h
    · next hb => exact ⟨moves_textBlock h,length_of_textBlock h hc hb⟩

theorem moves_body (levels : Nat) : Moves (body levels) := by
  induction levels with
  | zero => exact moves_tooDeep
  | succ levels ih =>
    intro c xs d h
    rw [body,blocks_eq] at h
    exact ((many_eq_ok (repeats_blockWith levels ih)).mp h).reaches (repeats_blockWith levels ih)

theorem blocks_eq_ok {levels : Nat} {xs : List Block} : blocks levels c = .ok (xs,d) ↔
    Rounds atBlock (blockWith levels (body levels)) c xs d := by
  rw [blocks_eq]
  exact many_eq_ok (repeats_blockWith levels (moves_body levels))

end Stencil.Grammar

import Stencil.Proofs.Reading.Block
import Stencil.Proofs.Reading.PrintedCondition

/-! # Reading the source text of blocks

The canonical source of a well-formed sequence reads back at the end of the text or before
an end tag. The induction is on the levels for the bodies of directives and, on one level,
on the sequence; a text has to end where the source of the next block begins.
-/
namespace Stencil.Grammar
variable {levels : Nat} {c : Cursor} {s : Text} {inner : Reading (List Block)}

theorem exists_openTag {directive : Text} (hc : c.rest = openToken directive ++ s) :
    ∃ d, openTag directive c = .ok d ∧ d.rest = s.dropWhile isBlank := by
  refine ⟨_,openTag_eq_ok.mpr ⟨⟨s,hc.symm⟩,rfl⟩,?_⟩
  rw [Cursor.rest_skipBlank,Cursor.rest_advance_of_append hc]

theorem exists_closeTag (hc : c.rest = closeToken ++ s) :
    ∃ d, closeTag c = .ok d ∧ d.rest = s := by
  rw [closeTag,Cursor.skipBlank_eq_self hc (by decide)]
  exact exists_expect .closeDirective closeToken hc

theorem exists_endTag (directive : Text) (hc : c.rest = endToken directive ++ s) :
    ∃ d, endTag directive c = .ok d ∧ d.rest = s :=
  exists_expect .endDirective (endToken directive) hc

theorem endsCondition_closeToken : EndsCondition (closeToken ++ s) := by
  rintro x ⟨⟩
  exact Or.inr rfl

theorem endsArg_closeToken : EndsArg (closeToken ++ s) := endsArg_cons (by decide)

theorem dropWhile_closeToken : (closeToken ++ s).dropWhile isBlank = closeToken ++ s :=
  dropWhile_eq_self (by decide)

theorem dropWhile_space (h : s.dropWhile isBlank = s) : (' ' :: s).dropWhile isBlank = s := by
  rw [List.dropWhile_cons,if_pos isBlank_space,h]

theorem dropWhile_print {x : Arg} (hw : x.WellFormed) (s : Text) :
    (x.print ++ s).dropWhile isBlank = x.print ++ s := by
  obtain ⟨y,r,he,hy⟩ := exists_print_head hw s
  rw [he,dropWhile_eq_self (isBlank_of_isArgStart hy)]

theorem dropWhile_name {t : Text} (ht : IsName t) (s : Text) :
    (t ++ s).dropWhile isBlank = t ++ s := by
  obtain ⟨y,r,rfl,hy⟩ := exists_name_head ht
  exact dropWhile_eq_self (isBlank_of_isNameChar (isNameChar_of_isNameStart hy))

theorem endsName_space : EndsName (' ' :: s) := by
  rintro x ⟨⟩
  decide

/-- A text reads back, and no brace stands where it begins. -/
theorem exists_textBlock {afterText : Bool} {t : Text} (hw : TextWellFormed afterText t)
    (hs : EndsText s) (hc : c.rest = textSource afterText t ++ s) :
    c.rest ≠ [] ∧ c.rest.head? ≠ some '\x7b' ∧
      ∃ d, textBlock c = .ok (.text t,d) ∧ d.rest = s := by
  by_cases he : NeedsEscape afterText t
  · have hlen := hw.two_le he
    rcases t with _ | ⟨p,_ | ⟨q,r⟩⟩
    · simp at hlen
    · simp at hlen
    · obtain ⟨htake,hdrop⟩ := takeWhile_append_of_ends hw.plain_after hs
      have hrest : c.rest = ['\\',p,q] ++ (r ++ s) := by
        rw [hc,textSource,if_pos he]
        rfl
      have hadv : (c.advance 3).rest = r ++ s := Cursor.rest_advance_of_append hrest
      refine ⟨by simp [hrest],by simp [hrest],(c.advance 3).skipWhile isTextChar,?_,?_⟩
      · refine textBlock_eq_ok.mpr (Or.inl ⟨p,q,r ++ s,hrest,?_,rfl⟩)
        exact congrArg (fun run => Block.text (p :: q :: run)) htake
      · rw [Cursor.rest_skipWhile,hadv]
        exact hdrop
  · have hplain : ∀ x ∈ t, isTextChar x = true := by
      intro x hx
      cases hf : isTextChar x with
      | true => rfl
      | false => exact absurd (Or.inr ⟨x,hx,hf⟩) he
    obtain ⟨htake,hdrop⟩ := takeWhile_append_of_ends hplain hs
    have hrest : c.rest = t ++ s := by rw [hc,textSource,if_neg he]
    obtain ⟨y,r,rfl⟩ := List.exists_cons_of_ne_nil hw.nonempty
    have hy := hplain y List.mem_cons_self
    have hhead : ∀ z, isTextChar z = false → c.rest.head? ≠ some z := by
      intro z hz h
      obtain rfl := Option.some.inj ((by rw [hrest]; rfl : c.rest.head? = some y).symm.trans h)
      exact absurd (hy.symm.trans hz) (by decide)
    refine ⟨by simp [hrest],hhead _ (by decide),c.skipWhile isTextChar,?_,?_⟩
    · exact textBlock_eq_ok.mpr (Or.inr ⟨hhead _ (by decide),by rw [hrest,htake],rfl⟩)
    · rw [Cursor.rest_skipWhile,hrest,hdrop]

theorem exists_assignment {directive target : Text} {arg : Arg} (ht : IsName target)
    (hw : arg.WellFormed) (hn : arg.nesting ≤ levels)
    (hc : c.rest = openToken directive ++
      ' ' :: (target ++ ' ' :: '=' :: ' ' :: (arg.print ++ (closeToken ++ s)))) :
    ∃ y d, assignment (argument levels) directive c = .ok ((target,y),d) ∧
      y.relocate nowhere = arg.relocate nowhere ∧ d.rest = s := by
  obtain ⟨d₁,hd₁,hds₁⟩ := exists_openTag hc
  rw [dropWhile_space (dropWhile_name ht _)] at hds₁
  obtain ⟨d₂,hd₂,hds₂⟩ := exists_name .noName ht endsName_space hds₁
  have heq : d₂.skipBlank.rest = ['='] ++ ' ' :: (arg.print ++ (closeToken ++ s)) := by
    rw [Cursor.rest_skipBlank,hds₂]
    exact dropWhile_space (dropWhile_eq_self (by decide))
  obtain ⟨d₃,hd₃,hds₃⟩ := exists_expect .symbol ['='] heq
  have harg : d₃.skipBlank.rest = arg.print ++ (closeToken ++ s) := by
    rw [Cursor.rest_skipBlank,hds₃,dropWhile_space (dropWhile_print hw _)]
  obtain ⟨y,d₄,hy,he,hds₄⟩ := exists_argument hw hn endsArg_closeToken harg
  rw [dropWhile_closeToken] at hds₄
  obtain ⟨d,hd,hds⟩ := exists_closeTag hds₄
  exact ⟨y,d,assignment_eq_ok.mpr ⟨d₁,d₂,d₃,d₄,hd₁,hd₂,hd₃,hy,hd⟩,he,hds⟩

theorem isName_directionName (direction : Direction) : IsName direction.name := by
  cases direction <;> exact ⟨by decide,List.all_eq_true.mp (by decide)⟩

theorem ofName?_name (direction : Direction) :
    Direction.ofName? direction.name = some direction := by
  cases direction <;> decide

theorem exists_direction (side : Direction) (hc : c.rest = side.name ++ (closeToken ++ s)) :
    ∃ d, direction c = .ok (side,d) ∧ d.rest = closeToken ++ s := by
  have hname := isName_directionName side
  have hat : nameAt c.rest = side.name := by
    rw [hc,nameAt_append hname]
    rintro x ⟨⟩
    decide
  have hhead : c.rest.head? ≠ some '\x7d' := by
    obtain ⟨y,r,hy,hstart⟩ := exists_name_head hname
    rw [hc,hy]
    rintro ⟨⟩
    exact absurd hstart (by decide)
  refine ⟨_,direction_eq_ok.mpr (Or.inr ⟨hhead,by rw [hat,ofName?_name],rfl⟩),?_⟩
  rw [hat]
  exact Cursor.rest_advance_of_append hc

theorem exists_loopSource {x : LoopSource} (hw : x.WellFormed) (hn : x.nesting ≤ levels)
    (hc : c.rest = x.source ++ (closeToken ++ s)) :
    ∃ y d, loopSource (argument levels) (array levels) c = .ok (y,d) ∧
      y.relocate nowhere = x.relocate nowhere ∧ d.rest = closeToken ++ s := by
  cases x with
  | range first last =>
    obtain ⟨hwf,hwl⟩ := hw
    obtain ⟨hnf,hnl⟩ := Nat.max_le.mp hn
    have hrest : c.rest = "in".toList ++
        ' ' :: (first.print ++ '.' :: '.' :: (last.print ++ (closeToken ++ s))) := by
      rw [hc,LoopSource.source]
      simp only [List.append_assoc]
      rfl
    have hfirst : (c.advance 2).skipBlank.rest =
        first.print ++ '.' :: '.' :: (last.print ++ (closeToken ++ s)) := by
      have hadv : (c.advance 2).rest = _ := Cursor.rest_advance_of_append hrest
      rw [Cursor.rest_skipBlank,hadv,dropWhile_space (dropWhile_print hwf _)]
    obtain ⟨y,d₁,hy,he,hds₁⟩ := exists_argument hwf hnf endsArg_dots hfirst
    rw [dropWhile_eq_self (by decide)] at hds₁
    obtain ⟨d₂,hd₂,hds₂⟩ := exists_expect .rangeSeparator ['.','.'] hds₁
    obtain ⟨z,d,hz,hez,hds⟩ := exists_argument hwl hnl endsArg_closeToken hds₂
    rw [dropWhile_closeToken] at hds
    refine ⟨_,d,loopSource_eq_ok.mpr (Or.inl ⟨⟨_,hrest.symm⟩,y,d₁,d₂,z,hy,hd₂,hz,rfl⟩),?_,hds⟩
    rw [LoopSource.relocate,LoopSource.relocate,he,hez]
  | items args =>
    have hrest : c.rest = "of".toList ++ ' ' :: (arrayPrint args ++ (closeToken ++ s)) := by
      rw [hc,LoopSource.source,List.append_assoc]
      rfl
    have harray : (c.advance 2).skipBlank.rest = arrayPrint args ++ (closeToken ++ s) := by
      have hadv : (c.advance 2).rest = _ := Cursor.rest_advance_of_append hrest
      rw [Cursor.rest_skipBlank,hadv]
      exact dropWhile_space (dropWhile_eq_self (by decide))
    obtain ⟨ys,d,hys,hes,hds⟩ := exists_array hw hn harray
    refine ⟨_,d,loopSource_eq_ok.mpr (Or.inr ⟨⟨_,hrest.symm⟩,ys,hys,rfl⟩),?_,hds⟩
    rw [LoopSource.relocate,LoopSource.relocate,hes]

/-- Well-formed bodies that open less than `levels` levels read back. -/
def BodiesPrintBack (levels : Nat) (inner : Reading (List Block)) : Prop :=
  ∀ ⦃xs : List Block⦄ ⦃c : Cursor⦄ ⦃s : Text⦄, BlocksWellFormed false xs →
    blocksNesting xs < levels → EndsBlocks s → c.rest = blocksSource false xs ++ s →
    ∃ ys d, inner c = .ok (ys,d) ∧
      ys.map (Block.relocate nowhere) = xs.map (Block.relocate nowhere) ∧ d.rest = s

theorem exists_branchBlock (hb : BodiesPrintBack levels inner) {test : Condition}
    {body : List Block} (hw : test.WellFormed) (hwb : BlocksWellFormed false body)
    (hn : test.nesting ≤ levels) (hnb : blocksNesting body < levels)
    (hc : c.rest = openToken "if".toList ++ ' ' :: (test.print ++
      (closeToken ++ (blocksSource false body ++ (endToken "if".toList ++ s))))) :
    ∃ y d, branchBlock (condition levels) inner c = .ok (y,d) ∧
      y.relocate nowhere = (Block.branch test body).relocate nowhere ∧ d.rest = s := by
  obtain ⟨d₁,hd₁,hds₁⟩ := exists_openTag hc
  rw [dropWhile_space (dropWhile_conditionPrint hw _)] at hds₁
  obtain ⟨y,d₂,hy,he,hds₂⟩ := exists_condition hw hn endsCondition_closeToken hds₁
  obtain ⟨d₃,hd₃,hds₃⟩ := exists_closeTag hds₂
  obtain ⟨ys,d₄,hys,hes,hds₄⟩ := hb hwb hnb (endsBlocks_endToken _ _) hds₃
  obtain ⟨d,hd,hds⟩ := exists_endTag "if".toList hds₄
  refine ⟨_,d,branchBlock_eq_ok.mpr ⟨d₁,y,d₂,d₃,ys,d₄,hd₁,hy,hd₃,hys,hd,rfl⟩,?_,hds⟩
  simp only [Block.relocate,blocksRelocate_eq_map,he,hes]

theorem exists_loopBlock (hb : BodiesPrintBack levels inner) {target : Text} {source : LoopSource}
    {body : List Block} (ht : IsName target) (hw : source.WellFormed)
    (hwb : BlocksWellFormed false body) (hn : source.nesting ≤ levels)
    (hnb : blocksNesting body < levels)
    (hc : c.rest = openToken "for".toList ++ ' ' :: (target ++ ' ' :: (source.source ++
      (closeToken ++ (blocksSource false body ++ (endToken "for".toList ++ s)))))) :
    ∃ y d, loopBlock (argument levels) (array levels) inner c = .ok (y,d) ∧
      y.relocate nowhere = (Block.loop target source body).relocate nowhere ∧ d.rest = s := by
  obtain ⟨d₁,hd₁,hds₁⟩ := exists_openTag hc
  rw [dropWhile_space (dropWhile_name ht _)] at hds₁
  obtain ⟨d₂,hd₂,hds₂⟩ := exists_name .noName ht endsName_space hds₁
  have hsource : d₂.skipBlank.rest = source.source ++
      (closeToken ++ (blocksSource false body ++ (endToken "for".toList ++ s))) := by
    rw [Cursor.rest_skipBlank,hds₂]
    refine dropWhile_space ?_
    cases source <;> exact dropWhile_eq_self (by decide)
  obtain ⟨y,d₃,hy,he,hds₃⟩ := exists_loopSource hw hn hsource
  obtain ⟨d₄,hd₄,hds₄⟩ := exists_closeTag hds₃
  obtain ⟨ys,d₅,hys,hes,hds₅⟩ := hb hwb hnb (endsBlocks_endToken _ _) hds₄
  obtain ⟨d,hd,hds⟩ := exists_endTag "for".toList hds₅
  refine ⟨_,d,loopBlock_eq_ok.mpr ⟨d₁,target,d₂,y,d₃,d₄,ys,d₅,hd₁,hd₂,hy,hd₄,hys,hd,rfl⟩,?_,hds⟩
  simp only [Block.relocate,blocksRelocate_eq_map,he,hes]

theorem exists_printBlock {arg : Arg} (hw : arg.WellFormed) (hn : arg.nesting ≤ levels)
    (hc : c.rest = openToken [':'] ++ (arg.print ++ (closeToken ++ s))) :
    ∃ y d, printBlock (argument levels) c = .ok (y,d) ∧
      y.relocate nowhere = (Block.print arg).relocate nowhere ∧ d.rest = s := by
  obtain ⟨d₁,hd₁,hds₁⟩ := exists_openTag hc
  rw [dropWhile_print hw] at hds₁
  obtain ⟨y,d₂,hy,he,hds₂⟩ := exists_argument hw hn endsArg_closeToken hds₁
  rw [dropWhile_closeToken] at hds₂
  obtain ⟨d,hd,hds⟩ := exists_closeTag hds₂
  refine ⟨_,d,printBlock_eq_ok.mpr ⟨d₁,y,d₂,hd₁,hy,hd,rfl⟩,?_,hds⟩
  simp only [Block.relocate,he]

theorem exists_trimBlock (side : Direction)
    (hc : c.rest = openToken "trim".toList ++ ' ' :: (side.name ++ (closeToken ++ s))) :
    ∃ d, trimBlock c = .ok (.trim side,d) ∧ d.rest = s := by
  obtain ⟨d₁,hd₁,hds₁⟩ := exists_openTag hc
  rw [dropWhile_space (dropWhile_name (isName_directionName side) _)] at hds₁
  obtain ⟨d₂,hd₂,hds₂⟩ := exists_direction side hds₁
  obtain ⟨d,hd,hds⟩ := exists_closeTag hds₂
  exact ⟨d,trimBlock_eq_ok.mpr ⟨d₁,side,d₂,hd₁,hd₂,hd,rfl⟩,hds⟩

/-- Every directive reads back through its entry in the table. -/
theorem exists_directive (hb : BodiesPrintBack levels inner) {x : Block} {afterText : Bool}
    (hx : x.isText = false) (hw : x.WellFormed afterText) (hn : x.nesting ≤ levels)
    (hc : c.rest = x.source afterText ++ s) :
    ∃ entry ∈ directives levels inner, openToken entry.1 <+: c.rest ∧
      ∃ y d, entry.2 c = .ok (y,d) ∧ y.relocate nowhere = x.relocate nowhere ∧ d.rest = s := by
  cases x with
  | text t => cases hx
  | branch test body =>
    obtain ⟨hnt,hnb⟩ := Nat.max_le.mp hn
    have hrest : c.rest = openToken "if".toList ++ ' ' :: (test.print ++
        (closeToken ++ (blocksSource false body ++ (endToken "if".toList ++ s)))) := by
      rw [hc,Block.source]
      simp only [List.append_assoc]
      rfl
    exact ⟨_,List.mem_cons_self,⟨_,hrest.symm⟩,exists_branchBlock hb hw.1 hw.2 hnt hnb hrest⟩
  | loop target source body =>
    obtain ⟨hns,hnb⟩ := Nat.max_le.mp hn
    have hrest : c.rest = openToken "for".toList ++ ' ' :: (target ++ ' ' :: (source.source ++
        (closeToken ++ (blocksSource false body ++ (endToken "for".toList ++ s))))) := by
      rw [hc,Block.source]
      simp only [List.append_assoc,List.cons_append]
      rfl
    exact ⟨("for".toList,loopBlock (argument levels) (array levels) inner),by simp [directives],⟨_,hrest.symm⟩,
      exists_loopBlock hb hw.1 hw.2.1 hw.2.2 hns hnb hrest⟩
  | set target arg =>
    have hrest : c.rest = openToken "set".toList ++
        ' ' :: (target ++ ' ' :: '=' :: ' ' :: (arg.print ++ (closeToken ++ s))) := by
      rw [hc,Block.source]
      simp only [List.append_assoc]
      rfl
    obtain ⟨y,d,hy,he,hds⟩ := exists_assignment hw.1 hw.2 hn hrest
    exact ⟨("set".toList,setBlock (argument levels)),by simp [directives],⟨_,hrest.symm⟩,.set target y,d,
      setBlock_eq_ok.mpr ⟨target,y,hy,rfl⟩,by rw [Block.relocate,Block.relocate,he],hds⟩
  | conf key arg =>
    have hrest : c.rest = openToken "conf".toList ++
        ' ' :: (key ++ ' ' :: '=' :: ' ' :: (arg.print ++ (closeToken ++ s))) := by
      rw [hc,Block.source]
      simp only [List.append_assoc]
      rfl
    obtain ⟨y,d,hy,he,hds⟩ := exists_assignment hw.1 hw.2 hn hrest
    exact ⟨("conf".toList,confBlock (argument levels)),by simp [directives],⟨_,hrest.symm⟩,.conf key y,d,
      confBlock_eq_ok.mpr ⟨key,y,hy,rfl⟩,by rw [Block.relocate,Block.relocate,he],hds⟩
  | print arg =>
    have hrest : c.rest = openToken [':'] ++ (arg.print ++ (closeToken ++ s)) := by
      rw [hc,Block.source]
      simp only [List.append_assoc]
    exact ⟨([':'],printBlock (argument levels)),by simp [directives],⟨_,hrest.symm⟩,exists_printBlock hw hn hrest⟩
  | trim side =>
    have hrest : c.rest = openToken "trim".toList ++ ' ' :: (side.name ++ (closeToken ++ s)) := by
      rw [hc,Block.source]
      simp only [List.append_assoc]
      rfl
    obtain ⟨d,hd,hds⟩ := exists_trimBlock side hrest
    exact ⟨("trim".toList,trimBlock),by simp [directives],⟨_,hrest.symm⟩,.trim side,d,hd,rfl,hds⟩
  | newline =>
    have hrest : c.rest = openToken "nl".toList ++ (closeToken ++ s) := by
      rw [hc,Block.source,List.append_assoc]
    obtain ⟨d₁,hd₁,hds₁⟩ := exists_openTag hrest
    rw [dropWhile_closeToken] at hds₁
    obtain ⟨d,hd,hds⟩ := exists_closeTag hds₁
    exact ⟨("nl".toList,newlineBlock),by simp [directives],⟨_,hrest.symm⟩,.newline,d,
      newlineBlock_eq_ok.mpr ⟨d₁,hd₁,hd,rfl⟩,rfl,hds⟩
  | foreign kind => exact absurd hw id

theorem exists_directive_head {x : Block} {afterText : Bool} (hx : x.isText = false)
    (hw : x.WellFormed afterText) : ∃ r, x.source afterText = '\x7b' :: r := by
  cases x with
  | text t => cases hx
  | foreign kind => exact absurd hw id
  | _ => exact ⟨_,rfl⟩

/-- After a text, the source of what follows begins with a brace or backslash. -/
theorem endsText_source {xs : List Block} (hw : BlocksWellFormed true xs) (hs : EndsBlocks s) :
    EndsText (blocksSource true xs ++ s) := by
  cases xs with
  | nil => exact hs.endsText
  | cons x xs =>
    cases hx : x.isText with
    | true =>
      cases x with
      | text t =>
        have he : textSource true t = '\\' :: t := if_pos (Or.inl rfl)
        rw [blocksSource,Block.source,he]
        rintro y ⟨⟩
        decide
      | _ => cases hx
    | false =>
      obtain ⟨r,hr⟩ := exists_directive_head hx hw.1
      rw [blocksSource,hr]
      rintro y ⟨⟩
      decide

theorem exists_rounds (hb : BodiesPrintBack levels inner) {xs : List Block} {afterText : Bool}
    (hw : BlocksWellFormed afterText xs) (hn : blocksNesting xs ≤ levels) (hs : EndsBlocks s)
    (hc : c.rest = blocksSource afterText xs ++ s) :
    ∃ ys d, Rounds atBlock (blockWith levels inner) c ys d ∧
      ys.map (Block.relocate nowhere) = xs.map (Block.relocate nowhere) ∧ d.rest = s := by
  induction xs generalizing afterText c with
  | nil => exact ⟨[],c,.stop (hs.atBlock hc),rfl,hc⟩
  | cons x xs ih =>
    obtain ⟨hwx,hwxs⟩ := hw
    obtain ⟨hnx,hnxs⟩ := Nat.max_le.mp hn
    have hrest : c.rest = x.source afterText ++ (blocksSource x.isText xs ++ s) := by
      rw [hc,blocksSource,List.append_assoc]
    have hx : ∃ y d, atBlock c = true ∧ blockWith levels inner c = .ok (y,d) ∧
        y.relocate nowhere = x.relocate nowhere ∧ d.rest = blocksSource x.isText xs ++ s := by
      cases ht : x.isText with
      | true =>
        cases x with
        | text t =>
          obtain ⟨hne,hhead,d,hd,hds⟩ := exists_textBlock hwx (endsText_source hwxs hs) hrest
          exact ⟨.text t,d,atBlock_of_head_ne hne hhead,by rw [blockWith,if_neg hhead,hd],rfl,hds⟩
        | _ => cases ht
      | false =>
        -- the brace in front decides for the directives, and the word behind it for one of them
        obtain ⟨entry,hm,ho,y,d,hy,he,hds⟩ := exists_directive hb ht hwx hnx hrest
        rw [ht] at hds
        exact ⟨y,d,atBlock_of_mem_directives hm ho,by rw [blockWith_of_mem hm ho,hy],he,hds⟩
    obtain ⟨y,d₁,hat,hy,he,hds₁⟩ := hx
    obtain ⟨ys,d,hys,hes,hds⟩ := ih hwxs hnxs hds₁
    exact ⟨y :: ys,d,.next hat hy hys,by rw [List.map_cons,List.map_cons,he,hes],hds⟩

theorem bodiesPrintBack_body (levels : Nat) : BodiesPrintBack levels (body levels) := by
  induction levels with
  | zero =>
    intro xs c s _ hn
    exact absurd hn (Nat.not_lt_zero _)
  | succ levels ih =>
    intro xs c s hw hn hs hc
    obtain ⟨ys,d,hys,he,hds⟩ := exists_rounds ih hw (Nat.le_of_lt_succ hn) hs hc
    exact ⟨ys,d,blocks_eq_ok.mpr hys,he,hds⟩

/-- The source of a well-formed sequence reads back if there are levels enough. -/
theorem exists_blocks {xs : List Block} (hw : BlocksWellFormed false xs)
    (hn : blocksNesting xs ≤ levels) (hs : EndsBlocks s) (hc : c.rest = blocksSource false xs ++ s) :
    ∃ ys d, blocks levels c = .ok (ys,d) ∧
      ys.map (Block.relocate nowhere) = xs.map (Block.relocate nowhere) ∧ d.rest = s := by
  obtain ⟨ys,d,hys,he,hds⟩ := exists_rounds (bodiesPrintBack_body levels) hw hn hs hc
  exact ⟨ys,d,blocks_eq_ok.mpr hys,he,hds⟩

end Stencil.Grammar

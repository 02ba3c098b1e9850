import Mathlib
import Stencil.Proofs.Branch
import Stencil.Proofs.DepthLimit
import Stencil.Proofs.Fragment.Layout
import Stencil.Proofs.RoundTrip
import Stencil.Proofs.Text.Squash

/-! # Text that comes out as it was written

A template without directives gives its own text, without the backslashes in it and settled as
one piece, in however many blocks it was read. A quoted literal in a print directive gives just
the text that it quotes.
-/
namespace Stencil
open Grammar
variable {ceiling : Nat}

/-- Whether every brace in the text is one of the two characters behind a backslash. -/
def isDirectiveFree : Text → Bool
  | [] => true
  | c :: t =>
    if c = '\\' then
      match t with
      | _ :: _ :: t => isDirectiveFree t
      | _ => true
    else c != '\x7b' && isDirectiveFree t

/-- The text without its backslashes, each of which protects the two characters behind it. There
is none if those are missing. -/
def unescape? : Text → Option Text
  | [] => some []
  | c :: t =>
    if c = '\\' then
      match t with
      | x :: y :: t => (unescape? t).map fun s => x :: y :: s
      | _ => none
    else (unescape? t).map (c :: ·)

theorem isTextChar_iff {c : Char} : isTextChar c = true ↔ c ≠ '\x7b' ∧ c ≠ '\\' := by
  simp [isTextChar]

section Runs
variable {run : Text} (hrun : ∀ c ∈ run, isTextChar c = true) (t : Text)
include hrun

theorem isDirectiveFree_append : isDirectiveFree (run ++ t) = isDirectiveFree t := by
  induction run with
  | nil => rfl
  | cons c run ih =>
    obtain ⟨hc,hrun⟩ := List.forall_mem_cons.mp hrun
    obtain ⟨hbrace,hslash⟩ := isTextChar_iff.mp hc
    rw [List.cons_append,isDirectiveFree.eq_def]
    simp [hslash,hbrace,ih hrun]

theorem unescape?_append : unescape? (run ++ t) = (unescape? t).map (run ++ ·) := by
  induction run with
  | nil => simp
  | cons c run ih =>
    obtain ⟨hc,hrun⟩ := List.forall_mem_cons.mp hrun
    rw [List.cons_append,unescape?.eq_def]
    simp [(isTextChar_iff.mp hc).2,ih hrun,Function.comp_def]

end Runs

theorem isDirectiveFree_of_plain {t : Text} (ht : ∀ c ∈ t, isTextChar c = true) :
    isDirectiveFree t = true := by
  rw [← List.append_nil t,isDirectiveFree_append ht]
  rfl

theorem unescape?_of_plain {t : Text} (ht : ∀ c ∈ t, isTextChar c = true) : unescape? t = some t := by
  have h := unescape?_append ht []
  rwa [List.append_nil,unescape?,Option.map_some,List.append_nil] at h

section Reading
variable {levels : Nat} {inner : Reading (List Block)} {c : Cursor}

theorem isTextChar_of_directiveFree {x : Char} {s : Text} (h : isDirectiveFree (x :: s) = true)
    (hx : x ≠ '\\') : isTextChar x = true := by
  rw [isDirectiveFree.eq_def] at h
  simp only [if_neg hx,Bool.and_eq_true,bne_iff_ne] at h
  exact isTextChar_iff.mpr ⟨h.1,hx⟩

theorem head?_ne_brace (h : isDirectiveFree c.rest = true) : c.rest.head? ≠ some '\x7b' := by
  intro hhead
  obtain ⟨s,hs⟩ := List.head?_eq_some_iff.mp hhead
  rw [hs] at h
  exact absurd (isTextChar_of_directiveFree h (by decide)) (by decide)

theorem forall_mem_takeWhile (t : Text) : ∀ c ∈ t.takeWhile isTextChar, isTextChar c = true :=
  fun _ hc => List.mem_takeWhile_imp hc

/-- Dropping a run that needs no backslash drops it from what is unescaped. -/
theorem unescape?_dropWhile (t : Text) :
    unescape? t = (unescape? (t.dropWhile isTextChar)).map (t.takeWhile isTextChar ++ ·) := by
  have h := unescape?_append (forall_mem_takeWhile t) (t.dropWhile isTextChar)
  rwa [List.takeWhile_append_dropWhile] at h

theorem isDirectiveFree_dropWhile (t : Text) :
    isDirectiveFree (t.dropWhile isTextChar) = isDirectiveFree t := by
  have h := isDirectiveFree_append (forall_mem_takeWhile t) (t.dropWhile isTextChar)
  rw [List.takeWhile_append_dropWhile] at h
  exact h.symm

/-- A backslash close to the end of the text has too little to protect. -/
theorem textBlock_cut {s : Text} (hs : c.rest = '\\' :: s) (hshort : s.length < 2) :
    textBlock c = .error ⟨.endOfText,(c.advance 1).offset,1⟩ := by
  have hrest : (c.advance 1).rest = s := by rw [Cursor.rest_advance,hs,List.drop_one,List.tail_cons]
  have htake : take 2 (c.advance 1) = .error ((c.advance 1).fault .endOfText 1) :=
    if_pos (by rwa [hrest])
  rw [textBlock,if_pos (by rw [hs]; rfl),htake]
  rfl

/-- One block is a text, and it ends before the next backslash or with the text. -/
theorem blockWith_directiveFree (hne : c.rest ≠ []) (hfree : isDirectiveFree c.rest = true) :
    (unescape? c.rest = none ∧
      ∃ offset, blockWith levels inner c = .error ⟨.endOfText,offset,1⟩) ∨
    ∃ run d, blockWith levels inner c = .ok (.text run,d) ∧ d.rest.length < c.rest.length ∧
      isDirectiveFree d.rest = true ∧ unescape? c.rest = (unescape? d.rest).map (run ++ ·) := by
  have hbrace := head?_ne_brace hfree
  have hblock : blockWith levels inner c = textBlock c := if_neg hbrace
  rw [hblock]
  obtain ⟨x,s,hs⟩ := List.exists_cons_of_ne_nil hne
  -- the two characters behind a backslash belong to the block whatever they are, so that only
  -- the run behind them has to be plain
  by_cases hx : x = '\\'
  · subst hx
    rcases s with _ | ⟨p,_ | ⟨q,s⟩⟩
    · exact Or.inl ⟨by rw [hs]; rfl,_,textBlock_cut hs Nat.zero_lt_two⟩
    · exact Or.inl ⟨by rw [hs]; rfl,_,textBlock_cut hs Nat.one_lt_two⟩
    · right
      have hd : ((c.advance 3).skipWhile isTextChar).rest = s.dropWhile isTextChar := by
        rw [Cursor.rest_skipWhile,Cursor.rest_advance,hs]
        rfl
      have hread : textBlock c =
          .ok (.text (p :: q :: s.takeWhile isTextChar),(c.advance 3).skipWhile isTextChar) :=
        textBlock_eq_ok.mpr (Or.inl ⟨p,q,s,hs,rfl,rfl⟩)
      refine ⟨_,_,hread,length_of_textBlock hread hne hbrace,?_,?_⟩
      · rw [hs] at hfree
        rw [hd,isDirectiveFree_dropWhile]
        exact hfree
      · rw [hs,hd]
        change (unescape? s).map _ = _
        rw [unescape?_dropWhile s,Option.map_map]
        rfl
  · right
    have hhead : c.rest.head? ≠ some '\\' := by
      rw [hs]
      exact fun h => hx (Option.some.inj h)
    have hread : textBlock c = .ok (.text (c.rest.takeWhile isTextChar),c.skipWhile isTextChar) :=
      textBlock_eq_ok.mpr (Or.inr ⟨hhead,rfl,rfl⟩)
    refine ⟨_,_,hread,length_of_textBlock hread hne hbrace,?_,?_⟩
    · rw [Cursor.rest_skipWhile,isDirectiveFree_dropWhile,hfree]
    · rw [Cursor.rest_skipWhile]
      exact unescape?_dropWhile c.rest

/-- The blocks are texts, which together hold the unescaped text. -/
theorem manyWithin_directiveFree (bound : Text) (hb : c.rest.length ≤ bound.length)
    (hfree : isDirectiveFree c.rest = true) :
    (unescape? c.rest = none ∧
      ∃ offset, manyWithin atBlock (blockWith levels inner) bound c = .error ⟨.endOfText,offset,1⟩) ∨
    ∃ (ts : List Text) (d : Cursor), unescape? c.rest = some ts.flatten ∧
      manyWithin atBlock (blockWith levels inner) bound c = .ok (ts.map .text,d) ∧ d.rest = [] := by
  induction bound generalizing c with
  | nil =>
    have hnil := List.length_eq_zero_iff.mp (Nat.le_zero.mp hb)
    exact Or.inr ⟨[],c,by rw [hnil]; rfl,rfl,hnil⟩
  | cons b bound ih =>
    by_cases hne : c.rest = []
    · have hstop : atBlock c = false := EndsBlocks.atBlock (Or.inl rfl) hne
      refine Or.inr ⟨[],c,by rw [hne]; rfl,?_,hne⟩
      rw [manyWithin,hstop]
      rfl
    · have hstart : atBlock c = true := atBlock_of_head_ne hne (head?_ne_brace hfree)
      rw [manyWithin,if_pos hstart]
      rcases blockWith_directiveFree hne hfree with
        ⟨hnone,offset,herror⟩ | ⟨run,d,hread,hlt,hd,hsome⟩
      · refine Or.inl ⟨hnone,offset,?_⟩
        rw [herror]
        rfl
      · rw [hread,hsome]
        -- the block took a character at least, so the bound is long enough for the rest
        have hle : d.rest.length ≤ bound.length := by
          rw [List.length_cons] at hb
          omega
        rcases ih hle hd with ⟨hnone,offset,herror⟩ | ⟨ts,e,hts,hrest,he⟩
        · refine Or.inl ⟨by rw [hnone]; rfl,offset,?_⟩
          simp only [bind,Except.bind,herror]
        · refine Or.inr ⟨run :: ts,e,by rw [hts]; rfl,?_,he⟩
          simp only [bind,Except.bind,hrest]
          rfl

end Reading

theorem readBlocks_directiveFree (levels : Nat) {t : Text} (hfree : isDirectiveFree t = true) :
    (unescape? t = none ∧ ∃ offset, readBlocks levels t = .error ⟨.endOfText,offset,1⟩) ∨
    ∃ ts : List Text, unescape? t = some ts.flatten ∧ readBlocks levels t = .ok (ts.map .text) := by
  have hblocks : blocks levels (.start t) =
      manyWithin atBlock (blockWith levels (body levels)) t (.start t) := by
    rw [blocks_eq]
    rfl
  have hstart : (Cursor.start t).rest.length ≤ t.length := Nat.le_refl _
  rcases manyWithin_directiveFree t hstart hfree with ⟨hnone,offset,herror⟩ | ⟨ts,d,hts,hread,hd⟩
  · refine Or.inl ⟨hnone,offset,?_⟩
    rw [readBlocks,hblocks,herror]
    rfl
  · exact Or.inr ⟨ts,hts,readBlocks_eq_ok.mpr ⟨d,hblocks.trans hread,hd⟩⟩

/-- What becomes of a text that is the whole template. -/
def Options.settle (options : Options) (t : Text) : Text :=
  let settled := (if options.squash = .on then t.squash else t).trim
  if options.trimEndLine then settled.stripLineEnds else settled

namespace Fragment

/-- Strings that meet are one string, if there are any. -/
theorem merge_strings : ∀ ts : List Text, merge (ts.map .string) = [] ∧ ts = [] ∨
    merge (ts.map .string) = [.string ts.flatten]
  | [] => Or.inl ⟨rfl,rfl⟩
  | t :: ts => by
    refine Or.inr ?_
    rw [List.map_cons,merge_cons,List.flatten_cons]
    rcases merge_strings ts with ⟨h,rfl⟩ | h
    · rw [h,List.flatten_nil,List.append_nil]
      rfl
    · rw [h]
      rfl

theorem output_strings (options : Options) (ts : List Text) :
    output options (ts.map .string) = options.settle ts.flatten := by
  rcases merge_strings ts with ⟨h,rfl⟩ | h
  · rcases options with ⟨_ | _,_ | _,_⟩ <;> rfl
  · have hpieces : pieces options.squash true (applyTrims (merge (ts.map .string))) =
        [settleString options.squash true true ts.flatten] := by
      rw [h]
      rfl
    rw [output,hpieces,List.flatten_singleton]
    rfl

end Fragment

theorem evalBlocks_texts (methods : Registry) (s : Scopes) (ts : List Text) :
    evalBlocks methods (ts.map .text) s = ⟨.ok (s,ts.map .string),[]⟩ := by
  induction ts with
  | nil => rfl
  | cons t ts ih =>
    rw [List.map_cons,evalBlocks,Rendering.andThen,Block.eval]
    simp only [bind,pure,Run.pure_bind,ih]
    rfl

theorem settle_on (trimEndLine : Bool) (depth : Nat) (t : Text) :
    Options.settle ⟨trimEndLine,.on,depth⟩ t = t.squash.trim := by
  cases trimEndLine with
  | false => rfl
  | true => exact Text.stripLineEnds_of_notMem (Text.squashed_squash t).trim.no_newline

/-- A settled text stays as it is. -/
theorem settle_settle (options : Options) (t : Text) :
    options.settle (options.settle t) = options.settle t := by
  rcases options with ⟨trimEndLine,mode,depth⟩
  cases mode with
  | on =>
    simp only [settle_on]
    rw [Text.squash_of_squashed (Text.squashed_squash t).trim,
      Text.trim_of_trimmed (Text.trimmed_trim _)]
  | off =>
    have htrim := Text.trimmed_trim t
    cases trimEndLine with
    | false => exact Text.trim_of_trimmed htrim
    | true =>
      change t.trim.stripLineEnds.trim.stripLineEnds = t.trim.stripLineEnds
      rw [Text.trim_of_trimmed htrim.stripLineEnds,Text.stripLineEnds_stripLineEnds]

section Rendering
variable (methods : Registry) (options : Options) (vars : Mapping) {t : Text}

theorem render_cutShort (hfree : isDirectiveFree t = true) (ht : unescape? t = none) :
    ∃ refusal, (Template.render ceiling methods options vars t).result = .error (.refused refusal) ∧
      refusal.message = "Unexpected end of input".toList := by
  rcases readBlocks_directiveFree (levelsFor ceiling options.maxDepth) hfree with
    ⟨_,offset,herror⟩ | ⟨ts,hts,_⟩
  · have hread := Template.read_result ceiling options.maxDepth t
    rw [herror] at hread
    refine ⟨⟨t,ceiling,options.maxDepth,⟨.endOfText,offset,1⟩⟩,?_,rfl⟩
    simp only [Template.render,Outcome.andThen,hread,Except.mapError]
  · cases ht.symm.trans hts

theorem render_unescaped (hfree : isDirectiveFree t = true) {s : Text} (ht : unescape? t = some s) :
    (Template.render ceiling methods options vars t).result = .ok (options.settle s) := by
  rcases readBlocks_directiveFree (levelsFor ceiling options.maxDepth) hfree with
    ⟨hnone,_⟩ | ⟨ts,hts,hread⟩
  · cases hnone.symm.trans ht
  · obtain rfl := Option.some.inj (ht.symm.trans hts)
    rw [(render_evaluates methods vars hread).1,evalBlocks_texts]
    exact congrArg Except.ok (Fragment.output_strings options ts)

theorem render_plain (ht : ∀ c ∈ t, isTextChar c = true) :
    (Template.render ceiling methods options vars t).result = .ok (options.settle t) :=
  render_unescaped methods options vars (isDirectiveFree_of_plain ht) (unescape?_of_plain ht)

end Rendering

/-- A template without directives is refused just if a backslash in it has fewer than two
characters behind it. Otherwise its text comes out without the backslashes: squashed and trimmed
while squashing is on, only trimmed where squashing is off and line ends are left alone. A text
without braces and backslashes has no backslash to lose, and an output without them gives itself. -/
theorem render_directiveFree (methods : Registry) (vars : Mapping) {t : Text}
    (hfree : isDirectiveFree t = true) :
    (unescape? t = none → ∀ options, ∃ refusal,
      (Template.render ceiling methods options vars t).result = .error (.refused refusal) ∧
        refusal.message = "Unexpected end of input".toList) ∧
    (∀ s, unescape? t = some s → ∀ depth,
      (∀ trimEndLine,
        (Template.render ceiling methods ⟨trimEndLine,.on,depth⟩ vars t).result = .ok s.squash.trim) ∧
      (Template.render ceiling methods ⟨false,.off,depth⟩ vars t).result = .ok s.trim) ∧
    ((∀ c ∈ t, isTextChar c = true) → unescape? t = some t) ∧
    ∀ options output, (Template.render ceiling methods options vars t).result = .ok output →
      (∀ c ∈ output, isTextChar c = true) →
      (Template.render ceiling methods options vars output).result = .ok output := by
  refine ⟨fun ht options => render_cutShort methods options vars hfree ht,fun s ht depth => ⟨?_,?_⟩,
    unescape?_of_plain,fun options output hrender hplain => ?_⟩
  · intro trimEndLine
    rw [render_unescaped methods _ vars hfree ht,settle_on]
  · rw [render_unescaped methods _ vars hfree ht]
    rfl
  · have hagain : (Template.render ceiling methods options vars output).result = _ :=
      render_plain methods options vars hplain
    cases ht : unescape? t with
    | none =>
      obtain ⟨refusal,herror,_⟩ := render_cutShort methods options vars hfree ht
      cases herror.symm.trans hrender
    | some s =>
      rw [render_unescaped methods options vars hfree ht] at hrender
      obtain rfl := Except.ok.inj hrender
      rwa [settle_settle] at hagain

/-- The blanks behind a backslash are squashed in one run with those before it. -/
theorem render_directiveFree_of_escapes :
    (Template.render 1000 .standard {} [] " a \\  b\\\x7b\x7bif ".toList).result =
      .ok "a b\x7b\x7bif".toList ∧
    (Template.render 1000 .standard ⟨false,.off,1⟩ [] " a \\  b\\\x7b\x7bif ".toList).result =
      .ok "a   b\x7b\x7bif".toList ∧
    ∃ refusal, (Template.render 1000 .standard {} [] "a\\\x7b".toList).result =
      .error (.refused refusal) ∧ refusal.message = "Unexpected end of input".toList := by
  have hfree : isDirectiveFree " a \\  b\\\x7b\x7bif ".toList = true := by decide +kernel
  have hescapes : unescape? " a \\  b\\\x7b\x7bif ".toList = some " a   b\x7b\x7bif ".toList := by
    decide +kernel
  have hcut : unescape? "a\\\x7b".toList = none := by decide +kernel
  obtain ⟨_,htext,_⟩ := render_directiveFree .standard [] hfree
  refine ⟨(htext _ hescapes 100).1 true,(htext _ hescapes 1).2,?_⟩
  exact (render_directiveFree .standard [] (by decide +kernel)).1 hcut {}

theorem eq_print_of_relocate {s : Text} {y : Block}
    (h : y.relocate nowhere = .print (.ofText s)) : y = .print (.ofText s) := by
  cases y with
  | print arg =>
    obtain ⟨operand,calls⟩ := arg
    obtain ⟨hoperand,hcalls⟩ := Arg.mk.inj (Block.print.inj h)
    cases operand with
    | literal t =>
      rw [callsRelocate_eq_map,List.map_eq_nil_iff] at hcalls
      rw [hcalls,Arg.ofText]
      exact congrArg (fun operand => Block.print (.mk operand [])) hoperand
    | _ => cases hoperand
  | _ => cases h

theorem readBlocks_literal (levels : Nat) (s : Text) :
    readBlocks levels (openToken [':'] ++ ((Operand.literal s).print ++ closeToken)) =
      .ok [.print (.ofText s)] := by
  have hw : BlocksWellFormed false [.print (.ofText s)] := ⟨⟨trivial,trivial⟩,trivial⟩
  have hn : blocksNesting [.print (.ofText s)] ≤ levels := Nat.zero_le levels
  obtain ⟨ys,hread,hys⟩ := exists_readBlocks hw hn
  obtain ⟨y,rest,rfl,hy,hrest⟩ := List.map_eq_cons_iff.mp hys
  obtain rfl := List.map_eq_nil_iff.mp hrest
  rw [eq_print_of_relocate hy] at hread
  have hsource : blocksSource false [.print (.ofText s)] =
      openToken [':'] ++ ((Operand.literal s).print ++ closeToken) := by
    simp [blocksSource,Block.source,Arg.ofText,Arg.print,callsPrint]
  rwa [hsource] at hread

/-- A print directive around the quoted form of a text gives the text as it is, whatever it
holds and whatever the squash mode. -/
theorem render_literal (methods : Registry) (vars : Mapping) (mode : SquashMode) (depth : Nat)
    (s : Text) :
    (Template.render ceiling methods ⟨false,mode,depth⟩ vars
      (openToken [':'] ++ ((Operand.literal s).print ++ closeToken))).result = .ok s := by
  rw [(render_evaluates methods vars (readBlocks_literal _ s)).1]
  have houtput : Fragment.output ⟨false,mode,depth⟩ [.value s] = s := List.flatten_singleton
  exact congrArg Except.ok houtput

end Stencil

import Stencil.Proofs.Reading.Expression
import Stencil.Proofs.Reading.Literal
import Stencil.Proofs.Tree.Relocation
import Stencil.Proofs.Tree.Shape

/-! # Reading printed arguments

The printed form of a well-formed argument reads back, offsets apart, whatever text comes
behind it that cannot be taken for a part of it. The induction is on the levels: an
argument opens one level around each argument inside it, so that the readings of what lies
deeper are known when the lists of steps, parameters, calls and items are gone through.
-/
namespace Stencil.Grammar
variable {inner : Reading Arg} {levels : Nat} {c : Cursor} {s : Text}

theorem toNat_of_isNameChar {x : Char} (h : isNameChar x = true) :
    48 ≤ x.toNat ∧ x.toNat ≤ 122 := by
  rcases Bool.or_eq_true_iff.mp h with h | h
  · rcases Bool.or_eq_true_iff.mp h with h | h
    · rcases Bool.or_eq_true_iff.mp h with h | h
      · obtain ⟨hl,hu⟩ := of_decide_eq_true h
        exact ⟨Nat.le_trans (by decide) hl,Nat.le_trans hu (by decide)⟩
      · obtain ⟨hl,hu⟩ := Bool.and_eq_true_iff.mp h
        exact ⟨Nat.le_trans (by decide) (of_decide_eq_true hl),of_decide_eq_true hu⟩
    · obtain ⟨hl,hu⟩ := Bool.and_eq_true_iff.mp h
      exact ⟨of_decide_eq_true hl,Nat.le_trans (of_decide_eq_true hu) (by decide)⟩
  · rw [beq_iff_eq.mp h]
    decide

theorem isNameChar_of_isNameStart {x : Char} (h : isNameStart x = true) : isNameChar x = true := by
  rcases Bool.or_eq_true_iff.mp h with h | h
  · exact Bool.or_eq_true_iff.mpr (Or.inl (Bool.or_eq_true_iff.mpr (Or.inl h)))
  · exact Bool.or_eq_true_iff.mpr (Or.inr h)

theorem isBlank_eq_false {x : Char} (h : 33 ≤ x.toNat) (h' : x.toNat ≤ 122) : isBlank x = false := by
  simp only [isBlank,inRanges,blankRanges,List.any_cons,List.any_nil,Bool.or_false,
    Bool.or_eq_false_iff,Bool.and_eq_false_iff,decide_eq_false_iff_not]
  omega

theorem isBlank_of_isNameChar {x : Char} (h : isNameChar x = true) : isBlank x = false := by
  obtain ⟨hl,hu⟩ := toNat_of_isNameChar h
  exact isBlank_eq_false (by omega) hu

/-- Begins an argument. -/
def isArgStart (x : Char) : Bool := isQuote x || isNameStart x

theorem isBlank_of_isArgStart {x : Char} (h : isArgStart x = true) : isBlank x = false := by
  rcases Bool.or_eq_true_iff.mp h with h | h
  · rcases Bool.or_eq_true_iff.mp h with h | h <;> rw [beq_iff_eq.mp h] <;> decide
  · exact isBlank_of_isNameChar (isNameChar_of_isNameStart h)

theorem isQuote_of_isNameChar {x : Char} (h : isNameChar x = true) : isQuote x = false := by
  obtain ⟨hl,_⟩ := toNat_of_isNameChar h
  cases hq : isQuote x with
  | false => rfl
  | true =>
    rcases Bool.or_eq_true_iff.mp hq with h' | h' <;>
      (rw [beq_iff_eq.mp h'] at hl; exact absurd hl (by decide))

theorem isQuote_of_isNameStart {x : Char} (h : isNameStart x = true) : isQuote x = false :=
  isQuote_of_isNameChar (isNameChar_of_isNameStart h)

theorem dropWhile_eq_self {x : Char} {r : Text} (hx : isBlank x = false) :
    (x :: r).dropWhile isBlank = x :: r := by
  simp [hx]

theorem dropWhile_idem (s : Text) : (s.dropWhile isBlank).dropWhile isBlank = s.dropWhile isBlank := by
  induction s with
  | nil => rfl
  | cons x s ih => by_cases h : isBlank x <;> simp [h,ih]

theorem exists_expect (role : Role) (token : Text) (hc : c.rest = token ++ s) :
    ∃ d, expect role token c = .ok d ∧ d.rest = s :=
  ⟨_,expect_eq_ok.mpr ⟨⟨s,hc.symm⟩,rfl⟩,Cursor.rest_advance_of_append hc⟩

/-- No name goes on with `s`. -/
def EndsName (s : Text) : Prop := ∀ x ∈ s.head?, isNameChar x = false

theorem nameAt_append {t : Text} (ht : IsName t) (hs : EndsName s) : nameAt (t ++ s) = t := by
  cases t with
  | nil => exact absurd ht id
  | cons x t =>
    obtain ⟨hx,ht⟩ := ht
    rw [List.cons_append,nameAt,if_pos hx,List.takeWhile_append_of_pos ht]
    cases s with
    | nil => simp
    | cons y s => simp [hs y rfl]

theorem ne_nil_of_isName {t : Text} (ht : IsName t) : t ≠ [] := by
  rintro rfl
  exact ht

theorem exists_name {t : Text} (problem : Problem) (ht : IsName t) (hs : EndsName s)
    (hc : c.rest = t ++ s) : ∃ d, name problem c = .ok (t,d) ∧ d.rest = s := by
  refine ⟨_,name_eq_ok.mpr ⟨?_,ne_nil_of_isName ht,rfl⟩,Cursor.rest_advance_of_append hc⟩
  rw [hc,nameAt_append ht hs]

theorem exists_literal {t : Text} (hc : c.rest = literalText t ++ s) :
    ∃ d, literal c = .ok (t,d) ∧ d.rest = s := by
  have hquoted : c.rest = '"' :: (t.flatMap (escapedIn '"') ++ '"' :: s) := by
    rw [hc,literalText,List.cons_append,List.append_assoc]
    rfl
  exact ⟨_,literal_of_closed (by decide) hquoted (inside_flatMap_escapedIn '"' t)⟩

/-- No argument goes on with `s`. -/
structure EndsArg (s : Text) : Prop where
  name : EndsName s
  step : ∀ d : Cursor, d.rest = s → atStep d = false
  arrow : ¬ ['-','>'] <+: s.dropWhile isBlank

theorem endsArg_nil : EndsArg [] where
  name x hx := by cases hx
  step d hd := by simp [atStep,hd]
  arrow h := by simp at h

theorem endsArg_cons {x : Char} (hx : x ∈ [']',')',',','\x7d']) : EndsArg (x :: s) := by
  have hb : isBlank x = false ∧ isNameChar x = false ∧ x ≠ '-' ∧ x ≠ '.' ∧ x ≠ '[' := by
    simp only [List.mem_cons,List.not_mem_nil,or_false] at hx
    rcases hx with rfl | rfl | rfl | rfl <;> decide
  obtain ⟨hb,hn,ha,hd,ho⟩ := hb
  refine ⟨fun y hy => ?_,fun d h => ?_,fun h => ?_⟩
  · obtain rfl := Option.some.inj hy
    exact hn
  · simp [atStep,h,hd,ho]
  · rw [dropWhile_eq_self hb] at h
    exact ha (List.cons_prefix_cons.mp h).1.symm

theorem endsArg_dots : EndsArg ('.' :: '.' :: s) where
  name x hx := by
    obtain rfl := Option.some.inj hx
    decide
  step d hd := by simp [atStep,hd]
  arrow h := by
    rw [dropWhile_eq_self (by decide)] at h
    simp at h

theorem endsArg_space {x : Char} (hx : isNameStart x = true) : EndsArg (' ' :: x :: s) where
  name y hy := by
    obtain rfl := Option.some.inj hy
    decide
  step d hd := by simp [atStep,hd]
  arrow h := by
    have hb := isBlank_of_isNameChar (isNameChar_of_isNameStart hx)
    obtain ⟨hl,_⟩ := toNat_of_isNameChar (isNameChar_of_isNameStart hx)
    rw [List.dropWhile_cons,if_pos isBlank_space,dropWhile_eq_self hb] at h
    rw [← (List.cons_prefix_cons.mp h).1] at hl
    exact absurd hl (by decide)

/-- What is printed reads back if it is well formed and opens less than `levels` levels. -/
def PrintsBack (levels : Nat) (inner : Reading Arg) : Prop :=
  ∀ ⦃a : Arg⦄ ⦃c : Cursor⦄ ⦃s : Text⦄, a.WellFormed → a.nesting < levels → EndsArg s →
    c.rest = a.print ++ s →
    ∃ b d, inner c = .ok (b,d) ∧ b.relocate nowhere = a.relocate nowhere ∧ d.rest = s.dropWhile isBlank

theorem exists_name_head {t : Text} (ht : IsName t) :
    ∃ x r, t = x :: r ∧ isNameStart x = true := by
  cases t with
  | nil => exact absurd ht id
  | cons x r => exact ⟨x,r,rfl,ht.1⟩

/-- A printed argument begins with a quote or a name. -/
theorem exists_print_head {a : Arg} (hw : a.WellFormed) (s : Text) :
    ∃ x r, a.print ++ s = x :: r ∧ isArgStart x = true := by
  rcases a with ⟨t | ⟨root,steps⟩,calls⟩
  · exact ⟨'"',_,rfl,by decide⟩
  · obtain ⟨x,r,rfl,hx⟩ := exists_name_head hw.1.1
    exact ⟨x,_,rfl,by simp [isArgStart,hx]⟩

theorem skipBlank_of_print {a : Arg} (hw : a.WellFormed) (hc : c.rest = a.print ++ s) :
    c.skipBlank = c := by
  obtain ⟨x,r,he,hx⟩ := exists_print_head hw s
  exact Cursor.skipBlank_eq_self (hc.trans he) (isBlank_of_isArgStart hx)

theorem endsName_of_stepsPrint {steps : List Step} (hs : EndsName s) :
    EndsName (stepsPrint steps ++ s) := by
  rcases steps with _ | ⟨field | arg,steps⟩
  · exact hs
  · intro x hx
    obtain rfl := Option.some.inj hx
    decide
  · intro x hx
    obtain rfl := Option.some.inj hx
    decide

theorem exists_step (hb : PrintsBack levels inner) {x : Step} (hw : x.WellFormed)
    (hn : x.nesting ≤ levels) (hs : EndsName s) (hc : c.rest = x.print ++ s) :
    ∃ y d, step inner c = .ok (y,d) ∧ y.relocate nowhere = x.relocate nowhere ∧ d.rest = s := by
  cases x with
  | field name =>
    have hrest : (c.advance 1).rest = name ++ s := Cursor.rest_advance_one hc
    obtain ⟨d,hd,hds⟩ := exists_name .noName hw hs hrest
    exact ⟨_,d,step_eq_ok.mpr (Or.inl ⟨by rw [hc]; rfl,name,hd,rfl⟩),rfl,hds⟩
  | index arg =>
    have hrest : (c.advance 1).rest = arg.print ++ ']' :: s := by
      rw [Step.print,List.cons_append,List.append_assoc,List.singleton_append] at hc
      exact Cursor.rest_advance_one hc
    obtain ⟨b,d₁,hi,he,hd₁⟩ := hb hw hn (endsArg_cons (by decide)) hrest
    rw [dropWhile_eq_self (by decide)] at hd₁
    obtain ⟨d,hd,hds⟩ := exists_expect .symbol [']'] hd₁
    refine ⟨_,d,step_eq_ok.mpr (Or.inr ⟨?_,b,d₁,?_,?_,rfl⟩),?_,hds⟩
    · simp [hc,Step.print]
    · rw [skipBlank_of_print hw hrest,hi]
    · rw [Cursor.skipBlank_eq_self hd₁ (by decide),hd]
    · rw [Step.relocate,Step.relocate,he]

theorem exists_steps (hb : PrintsBack levels inner) {xs : List Step} (hw : StepsWellFormed xs)
    (hn : stepsNesting xs ≤ levels) (hs : EndsName s) (ha : ∀ d : Cursor, d.rest = s → atStep d = false)
    (hc : c.rest = stepsPrint xs ++ s) : ∃ ys d, Rounds atStep (step inner) c ys d ∧
      ys.map (Step.relocate nowhere) = xs.map (Step.relocate nowhere) ∧ d.rest = s := by
  induction xs generalizing c with
  | nil => exact ⟨[],c,.stop (ha c hc),rfl,hc⟩
  | cons x xs ih =>
    obtain ⟨hwx,hwxs⟩ := hw
    obtain ⟨hnx,hnxs⟩ := Nat.max_le.mp hn
    have hrest : c.rest = x.print ++ (stepsPrint xs ++ s) := by
      rw [hc,stepsPrint,List.append_assoc]
    have ht : atStep c = true := by
      cases x with
      | field name =>
        obtain ⟨y,r,rfl,hy⟩ := exists_name_head hwx
        have hne : y ≠ '.' := by
          rintro rfl
          exact absurd hy (by decide)
        simp [atStep,hrest,Step.print,hne]
      | index arg => simp [atStep,hrest,Step.print]
    obtain ⟨y,d₁,hy,he,hd₁⟩ := exists_step hb hwx hnx (endsName_of_stepsPrint hs) hrest
    obtain ⟨ys,d,hys,hes,hd⟩ := ih hwxs hnxs hd₁
    exact ⟨y :: ys,d,.next ht hy hys,by rw [List.map_cons,List.map_cons,he,hes],hd⟩

theorem exists_operand (hm : Moves inner) (hb : PrintsBack levels inner) {x : Operand}
    (hw : x.WellFormed) (hn : x.nesting ≤ levels) (hs : EndsName s)
    (ha : ∀ d : Cursor, d.rest = s → atStep d = false) (hc : c.rest = x.print ++ s) :
    ∃ y d, operand inner c = .ok (y,d) ∧ y.relocate nowhere = x.relocate nowhere ∧ d.rest = s := by
  rcases x with t | ⟨root,steps⟩
  · obtain ⟨d,hd,hds⟩ := exists_literal hc
    have hq : atQuote c = true := by
      rw [atQuote,hc]
      rfl
    exact ⟨_,d,operand_eq_ok.mpr (Or.inl ⟨hq,t,hd,rfl⟩),rfl,hds⟩
  · have hrest : c.rest = root ++ (stepsPrint steps ++ s) := by
      rw [hc,Operand.print,List.append_assoc]
    obtain ⟨x,r,hx,hstart⟩ := exists_name_head hw.1
    have hat : atName c = true := by simp [atName,hrest,hx,hstart]
    have hq : atQuote c = false := by simp [atQuote,hrest,hx,isQuote_of_isNameStart hstart]
    obtain ⟨d₁,hd₁,hds₁⟩ := exists_name .noName hw.1 (endsName_of_stepsPrint hs) hrest
    obtain ⟨ys,d,hys,he,hd⟩ := exists_steps hb hw.2 hn hs ha hds₁
    refine ⟨_,d,operand_eq_ok.mpr (Or.inr ⟨hq,hat,(variablePath_eq_ok hm).mpr ⟨root,d₁,ys,hd₁,hys,rfl⟩⟩),
      ?_,hd⟩
    simp only [Operand.relocate,stepsRelocate_eq_map,he]

theorem join_cons (separator t : Text) (ts : List Text) :
    Text.join separator (t :: ts) = t ++ ts.flatMap (separator ++ ·) := by
  induction ts generalizing t with
  | nil => simp [Text.join]
  | cons u ts ih =>
    rw [Text.join,ih,List.flatMap_cons,List.append_assoc,List.append_assoc]
    exact List.cons_ne_nil u ts

theorem paramsPrint_eq_map (params : List Param) : paramsPrint params = params.map Param.print := by
  induction params with
  | nil => rfl
  | cons param params ih => rw [paramsPrint,ih,List.map_cons]

theorem exists_param_head {x : Param} (hw : x.WellFormed) :
    ∃ y r, x.print = y :: r ∧ isNameStart y = true := by
  rcases x with ⟨key,_ | value⟩
  · exact exists_name_head hw
  · obtain ⟨y,r,rfl,hy⟩ := exists_name_head hw.1
    exact ⟨y,_,rfl,hy⟩

/-- The text of further parameters, each behind a blank, up to the closing bracket. -/
def paramsTail (params : List Param) (s : Text) : Text :=
  params.flatMap (fun param => ' ' :: param.print) ++ ')' :: s

theorem endsArg_paramsTail {params : List Param} (hw : ParamsWellFormed params) :
    EndsArg (paramsTail params s) ∧
      ∀ y ∈ ((paramsTail params s).dropWhile isBlank).head?, y ≠ '=' := by
  cases params with
  | nil =>
    refine ⟨endsArg_cons (by decide),fun y hy => ?_⟩
    obtain rfl := Option.some.inj hy
    decide
  | cons param params =>
    obtain ⟨y,r,hp,hy⟩ := exists_param_head hw.1
    have hb := isBlank_of_isNameChar (isNameChar_of_isNameStart hy)
    simp only [paramsTail,List.flatMap_cons,hp,List.cons_append]
    refine ⟨endsArg_space hy,fun z hz => ?_⟩
    rw [List.dropWhile_cons,if_pos isBlank_space,dropWhile_eq_self hb] at hz
    obtain rfl := Option.some.inj hz
    rintro rfl
    exact absurd hy (by decide)

theorem exists_spacedParam (hb : PrintsBack levels inner) {x : Param} (hw : x.WellFormed)
    (hn : x.nesting ≤ levels) (hs : EndsArg s) (heq : ∀ y ∈ (s.dropWhile isBlank).head?, y ≠ '=')
    (hc : c.rest = x.print ++ s) : ∃ y d, spacedParam inner c = .ok (y,d) ∧
      y.relocate nowhere = x.relocate nowhere ∧ d.rest = s.dropWhile isBlank := by
  rcases x with ⟨key,_ | value⟩
  · obtain ⟨d₁,hd₁,hds₁⟩ := exists_name .noParam hw hs.name hc
    have hskip : d₁.skipBlank.rest = s.dropWhile isBlank := by rw [Cursor.rest_skipBlank,hds₁]
    have hne : d₁.skipBlank.rest.head? ≠ some '=' := by
      rw [hskip]
      intro h
      exact heq '=' h rfl
    have hp : param inner c = .ok (.mk key none,d₁.skipBlank) :=
      param_eq_ok.mpr ⟨key,d₁,hd₁,Or.inr ⟨hne,rfl,rfl⟩⟩
    refine ⟨_,_,spacedParam_eq_ok.mpr ⟨_,hp,rfl⟩,rfl,?_⟩
    rw [Cursor.rest_skipBlank,hskip,dropWhile_idem]
  · have hrest : c.rest = key ++ '=' :: (value.print ++ s) := by
      rw [hc,Param.print,List.append_assoc,List.cons_append]
    have hname : EndsName ('=' :: (value.print ++ s)) := by
      intro y hy
      obtain rfl := Option.some.inj hy
      decide
    obtain ⟨d₁,hd₁,hds₁⟩ := exists_name .noParam hw.1 hname hrest
    have hskip : d₁.skipBlank = d₁ := Cursor.skipBlank_eq_self hds₁ (by decide)
    have hval : (d₁.advance 1).rest = value.print ++ s := Cursor.rest_advance_one hds₁
    obtain ⟨b,d₂,hi,he,hd₂⟩ := hb hw.2 hn hs hval
    have hp : param inner c = .ok (.mk key (some b),d₂) := by
      refine param_eq_ok.mpr ⟨key,d₁,hd₁,Or.inl ⟨?_,b,?_,rfl⟩⟩
      · rw [hskip,hds₁,List.head?_cons]
      · rw [hskip,skipBlank_of_print hw.2 hval,hi]
    refine ⟨_,_,spacedParam_eq_ok.mpr ⟨_,hp,rfl⟩,?_,?_⟩
    · simp only [Param.relocate,he]
    · rw [Cursor.rest_skipBlank,hd₂,dropWhile_idem]

theorem exists_params (hb : PrintsBack levels inner) {xs : List Param} (hw : ParamsWellFormed xs)
    (hn : paramsNesting xs ≤ levels) (hc : c.rest = (paramsTail xs s).dropWhile isBlank) :
    ∃ ys d, Rounds atName (spacedParam inner) c ys d ∧
      ys.map (Param.relocate nowhere) = xs.map (Param.relocate nowhere) ∧ d.rest = ')' :: s := by
  induction xs generalizing c with
  | nil =>
    have hrest : c.rest = ')' :: s := hc.trans (dropWhile_eq_self (by decide))
    exact ⟨[],c,.stop (by rw [atName,hrest]; rfl),rfl,hrest⟩
  | cons x xs ih =>
    obtain ⟨hwx,hwxs⟩ := hw
    obtain ⟨hnx,hnxs⟩ := Nat.max_le.mp hn
    obtain ⟨y,r,hp,hy⟩ := exists_param_head hwx
    have hbl := isBlank_of_isNameChar (isNameChar_of_isNameStart hy)
    have hrest : c.rest = x.print ++ paramsTail xs s := by
      rw [hc,paramsTail,List.flatMap_cons,List.cons_append,List.cons_append,List.dropWhile_cons,
        if_pos isBlank_space,hp,List.cons_append,List.cons_append,dropWhile_eq_self hbl,
        List.append_assoc,paramsTail,List.cons_append]
    have ht : atName c = true := by simp [atName,hrest,hp,hy]
    obtain ⟨hs,heq⟩ := endsArg_paramsTail (s := s) hwxs
    obtain ⟨z,d₁,hz,he,hd₁⟩ := exists_spacedParam hb hwx hnx hs heq hrest
    obtain ⟨zs,d,hzs,hes,hd⟩ := ih hwxs hnxs hd₁
    exact ⟨z :: zs,d,.next ht hz hzs,by rw [List.map_cons,List.map_cons,he,hes],hd⟩

theorem dropWhile_paramsTail {params : List Param} (hw : ParamsWellFormed params) :
    (paramsTail params s).dropWhile isBlank =
      Text.join [' '] (paramsPrint params) ++ ')' :: s := by
  cases params with
  | nil => exact dropWhile_eq_self (by decide)
  | cons param params =>
    obtain ⟨y,r,hp,hy⟩ := exists_param_head hw.1
    have hb := isBlank_of_isNameChar (isNameChar_of_isNameStart hy)
    have htail : (params.map Param.print).flatMap ([' '] ++ ·) =
        params.flatMap fun param => ' ' :: param.print := by
      rw [List.flatMap_map]
      rfl
    rw [paramsPrint,join_cons,paramsPrint_eq_map,htail,paramsTail,List.flatMap_cons,
      List.cons_append,List.cons_append,List.dropWhile_cons,if_pos isBlank_space,hp,List.cons_append,
      List.cons_append,dropWhile_eq_self hb]

theorem exists_call (hm : Moves inner) (hb : PrintsBack levels inner) {x : Call} (hw : x.WellFormed)
    (hn : x.nesting ≤ levels) (hc : c.rest = x.print ++ s) :
    ∃ y d, call inner c = .ok (y,d) ∧ y.relocate nowhere = x.relocate nowhere ∧ d.rest = s := by
  rcases x with ⟨function,params,offset⟩
  have hrest : c.rest = function ++ '(' :: (paramsTail params s).dropWhile isBlank := by
    rw [dropWhile_paramsTail hw.2,hc,Call.print,List.append_assoc,List.cons_append,
      List.append_assoc,List.singleton_append]
  have hname : EndsName ('(' :: (paramsTail params s).dropWhile isBlank) := by
    intro y hy
    obtain rfl := Option.some.inj hy
    decide
  obtain ⟨d₁,hd₁,hds₁⟩ := exists_name .noFunction hw.1 hname hrest
  have hskip : d₁.skipBlank = d₁ := Cursor.skipBlank_eq_self hds₁ (by decide)
  obtain ⟨d₂,hd₂,hds₂⟩ := exists_expect .symbol ['('] hds₁
  have hopen : d₂.skipBlank.rest = (paramsTail params s).dropWhile isBlank := by
    rw [Cursor.rest_skipBlank,hds₂,dropWhile_idem]
  obtain ⟨ys,d₃,hys,he,hds₃⟩ := exists_params hb hw.2 hn hopen
  obtain ⟨d,hd,hds⟩ := exists_expect .symbol [')'] hds₃
  refine ⟨_,d,(call_eq_ok hm).mpr ⟨function,d₁,d₂,ys,d₃,hd₁,by rw [hskip,hd₂],hys,hd,rfl⟩,?_,hds⟩
  simp only [Call.relocate,paramsRelocate_eq_map,he,nowhere]

theorem exists_calls (hm : Moves inner) (hb : PrintsBack levels inner) {xs : List Call}
    (hw : CallsWellFormed xs) (hn : callsNesting xs ≤ levels) (hs : EndsArg s)
    (hc : c.rest = (callsPrint xs ++ s).dropWhile isBlank) :
    ∃ ys d, Rounds atArrow (pipedCall inner) c ys d ∧
      ys.map (Call.relocate nowhere) = xs.map (Call.relocate nowhere) ∧
      d.rest = s.dropWhile isBlank := by
  induction xs generalizing c with
  | nil =>
    have ht : atArrow c = false := by
      rw [← Bool.not_eq_true,atArrow,Cursor.startsWith_iff,hc]
      exact hs.arrow
    exact ⟨[],c,.stop ht,rfl,hc⟩
  | cons x xs ih =>
    obtain ⟨hwx,hwxs⟩ := hw
    obtain ⟨hnx,hnxs⟩ := Nat.max_le.mp hn
    have hrest : c.rest = ['-','>'] ++ ' ' :: (x.print ++ (callsPrint xs ++ s)) := by
      rw [hc,callsPrint,List.append_assoc,List.append_assoc]
      rfl
    have hcall : (c.advance 2).skipBlank.rest = x.print ++ (callsPrint xs ++ s) := by
      rcases x with ⟨function,params,offset⟩
      obtain ⟨y,r,rfl,hy⟩ := exists_name_head hwx.1
      have hbl := isBlank_of_isNameChar (isNameChar_of_isNameStart hy)
      have harrow := Cursor.rest_advance_of_append hrest
      rw [List.length_cons,List.length_singleton] at harrow
      rw [Cursor.rest_skipBlank,harrow,List.dropWhile_cons,if_pos isBlank_space]
      exact dropWhile_eq_self hbl
    obtain ⟨y,d₁,hy,he,hds₁⟩ := exists_call hm hb hwx hnx hcall
    have hskip : d₁.skipBlank.rest = (callsPrint xs ++ s).dropWhile isBlank := by
      rw [Cursor.rest_skipBlank,hds₁]
    obtain ⟨ys,d,hys,hes,hds⟩ := ih hwxs hnxs hskip
    have ht : atArrow c = true := Cursor.startsWith_iff.mpr ⟨_,hrest.symm⟩
    exact ⟨y :: ys,d,.next ht (pipedCall_eq_ok.mpr ⟨d₁,hy,rfl⟩) hys,
      by rw [List.map_cons,List.map_cons,he,hes],hds⟩

theorem endsOperand_of_callsPrint (calls : List Call) (hs : EndsArg s) :
    EndsName (callsPrint calls ++ s) ∧
      ∀ d : Cursor, d.rest = callsPrint calls ++ s → atStep d = false := by
  cases calls with
  | nil => exact ⟨hs.name,hs.step⟩
  | cons call calls =>
    refine ⟨fun y hy => ?_,fun d hd => ?_⟩
    · obtain rfl := Option.some.inj hy
      decide
    · simp [atStep,hd,callsPrint]

theorem exists_argumentWith (hm : Moves inner) (hb : PrintsBack levels inner) {x : Arg}
    (hw : x.WellFormed) (hn : x.nesting ≤ levels) (hs : EndsArg s) (hc : c.rest = x.print ++ s) :
    ∃ y d, argumentWith inner c = .ok (y,d) ∧ y.relocate nowhere = x.relocate nowhere ∧
      d.rest = s.dropWhile isBlank := by
  have hskip := skipBlank_of_print hw hc
  rcases x with ⟨first,calls⟩
  obtain ⟨hno,hnc⟩ := Nat.max_le.mp hn
  have hrest : c.rest = first.print ++ (callsPrint calls ++ s) := by
    rw [hc,Arg.print,List.append_assoc]
  obtain ⟨hname,hstep⟩ := endsOperand_of_callsPrint calls hs
  obtain ⟨y,d₁,hy,he,hds₁⟩ := exists_operand hm hb hw.1 hno hname hstep hrest
  have hopen : d₁.skipBlank.rest = (callsPrint calls ++ s).dropWhile isBlank := by
    rw [Cursor.rest_skipBlank,hds₁]
  obtain ⟨ys,d,hys,hes,hds⟩ := exists_calls hm hb hw.2 hnc hs hopen
  refine ⟨_,d,(argumentWith_eq_ok hm).mpr ⟨y,d₁,ys,by rw [hskip,hy],hys,rfl⟩,?_,hds⟩
  simp only [Arg.relocate,callsRelocate_eq_map,he,hes]

theorem printsBack_nestedArgument (levels : Nat) : PrintsBack levels (nestedArgument levels) := by
  induction levels with
  | zero =>
    intro a c s _ hn
    exact absurd hn (Nat.not_lt_zero _)
  | succ levels ih =>
    intro a c s hw hn hs hc
    rw [nestedArgument,argument_eq]
    exact exists_argumentWith (moves_nestedArgument levels) ih hw (Nat.le_of_lt_succ hn) hs hc

/-- A printed argument reads back if there are levels enough. -/
theorem exists_argument {x : Arg} (hw : x.WellFormed) (hn : x.nesting ≤ levels) (hs : EndsArg s)
    (hc : c.rest = x.print ++ s) : ∃ y d, argument levels c = .ok (y,d) ∧
      y.relocate nowhere = x.relocate nowhere ∧ d.rest = s.dropWhile isBlank := by
  rw [argument_eq]
  exact exists_argumentWith (moves_nestedArgument levels) (printsBack_nestedArgument levels) hw hn hs hc

/-- The text of further items, each behind a comma, up to the closing bracket. -/
def itemsTail (items : List Arg) (s : Text) : Text :=
  items.flatMap (fun item => ',' :: ' ' :: item.print) ++ ']' :: s

theorem exists_itemsTail_head (items : List Arg) (s : Text) :
    ∃ y r, itemsTail items s = y :: r ∧ isBlank y = false ∧ y ∈ [']',')',',','\x7d'] := by
  cases items with
  | nil => exact ⟨']',s,rfl,by decide,by decide⟩
  | cons item items => exact ⟨',',_,rfl,by decide,by decide⟩

theorem exists_arrayItem (hb : PrintsBack levels inner) {x : Arg} {items : List Arg}
    (hw : x.WellFormed) (hn : x.nesting < levels)
    (hc : c.skipBlank.rest = x.print ++ itemsTail items s) : ∃ y d, arrayItem inner c = .ok (y,d) ∧
      y.relocate nowhere = x.relocate nowhere ∧ d.rest = itemsTail items s := by
  obtain ⟨z,r,hz,hbl,hmem⟩ := exists_itemsTail_head items s
  rw [hz] at hc ⊢
  obtain ⟨y,d,hy,he,hds⟩ := hb hw hn (endsArg_cons hmem) hc
  rw [dropWhile_eq_self hbl] at hds
  refine ⟨y,d,arrayItem_eq_ok.mpr ⟨d,hy,Cursor.skipBlank_eq_self hds hbl⟩,he,hds⟩

theorem exists_items (hb : PrintsBack levels inner) {xs : List Arg}
    (hw : ∀ x ∈ xs, x.WellFormed) (hn : itemsNesting xs ≤ levels) (hc : c.rest = itemsTail xs s) :
    ∃ ys d, Rounds atComma (nextItem inner) c ys d ∧
      ys.map (Arg.relocate nowhere) = xs.map (Arg.relocate nowhere) ∧ d.rest = ']' :: s := by
  induction xs generalizing c with
  | nil =>
    have ht : atComma c = false := by
      rw [atComma,Cursor.startsWith,hc]
      rfl
    exact ⟨[],c,.stop ht,rfl,hc⟩
  | cons x xs ih =>
    obtain ⟨hwx,hwxs⟩ := List.forall_mem_cons.mp hw
    obtain ⟨hnx,hnxs⟩ := Nat.max_le.mp hn
    have hrest : c.rest = ',' :: ' ' :: (x.print ++ itemsTail xs s) := by
      rw [hc,itemsTail,List.flatMap_cons,List.append_assoc]
      rfl
    have hskip : (c.advance 1).skipBlank.rest = x.print ++ itemsTail xs s := by
      obtain ⟨y,r,hy,hstart⟩ := exists_print_head hwx (itemsTail xs s)
      rw [Cursor.rest_skipBlank,Cursor.rest_advance_one hrest,List.dropWhile_cons,if_pos isBlank_space,hy,
        dropWhile_eq_self (isBlank_of_isArgStart hstart)]
    obtain ⟨y,d₁,hy,he,hds₁⟩ := exists_arrayItem hb hwx hnx hskip
    obtain ⟨ys,d,hys,hes,hds⟩ := ih hwxs hnxs hds₁
    have ht : atComma c = true := by
      rw [atComma,Cursor.startsWith,hrest]
      rfl
    exact ⟨y :: ys,d,.next ht hy hys,by rw [List.map_cons,List.map_cons,he,hes],hds⟩

theorem arrayPrint_cons (x : Arg) (xs : List Arg) (s : Text) :
    arrayPrint (x :: xs) ++ s = '[' :: (x.print ++ itemsTail xs s) := by
  have htail : (xs.map Arg.print).flatMap ([',',' '] ++ ·) =
      xs.flatMap fun item => ',' :: ' ' :: item.print := by
    rw [List.flatMap_map]
    rfl
  rw [arrayPrint,List.map_cons,join_cons,htail,itemsTail,List.cons_append,List.append_assoc,
    List.append_assoc,List.singleton_append]

/-- A printed array reads back, whatever follows it. -/
theorem exists_array {xs : List Arg} (hw : ItemsWellFormed xs) (hn : itemsNesting xs ≤ levels)
    (hc : c.rest = arrayPrint xs ++ s) : ∃ ys d, array levels c = .ok (ys,d) ∧
      ys.map (Arg.relocate nowhere) = xs.map (Arg.relocate nowhere) ∧ d.rest = s := by
  have hb := printsBack_nestedArgument levels
  obtain ⟨hne,hall⟩ := hw
  cases xs with
  | nil => exact absurd rfl hne
  | cons x xs =>
    obtain ⟨hwx,hwxs⟩ := List.forall_mem_cons.mp hall
    obtain ⟨hnx,hnxs⟩ := Nat.max_le.mp hn
    have hopen : c.rest = ['['] ++ (x.print ++ itemsTail xs s) := hc.trans (arrayPrint_cons x xs s)
    obtain ⟨d₁,hd₁,hds₁⟩ := exists_expect .symbol ['['] hopen
    have hskip : d₁.skipBlank.rest = x.print ++ itemsTail xs s := by
      rw [skipBlank_of_print hwx hds₁,hds₁]
    obtain ⟨y,d₂,hy,he,hds₂⟩ := exists_arrayItem hb hwx hnx hskip
    obtain ⟨ys,d₃,hys,hes,hds₃⟩ := exists_items hb hwxs hnxs hds₂
    obtain ⟨d,hd,hds⟩ := exists_expect .symbol [']'] hds₃
    refine ⟨_,d,(arrayWith_eq_ok (moves_nestedArgument levels)).mpr
      ⟨d₁,y,d₂,ys,d₃,hd₁,hy,hys,hd,rfl⟩,?_,hds⟩
    rw [List.map_cons,List.map_cons,he,hes]

end Stencil.Grammar

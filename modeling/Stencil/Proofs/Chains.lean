import Mathlib
import Stencil.Proofs.Branch
import Stencil.Proofs.DepthLimit
import Stencil.Proofs.Evaluation.Scoping

/-! # Chains of conditions

A condition that is no join is read from the front of a longer text up to an `and` or `or`, and
what follows the word is read as a condition of its own. A chain therefore groups to the right,
and its value is the right fold of its connectives over the values of its parts.
-/
namespace Stencil
open Grammar
variable {ceiling : Nat}

/-- No argument and no leaf goes on with `s`, and there is no blank in front of it. -/
structure Foreign (s : Text) : Prop where
  blank : ∀ x ∈ s.head?, isBlank x = false
  ahead : ∀ token ∈ lookAheads, ¬ token <+: s

theorem foreign_word (connective : Connective) (s : Text) : Foreign (connective.word ++ s) where
  blank := by
    cases connective <;> rintro x ⟨⟩ <;> decide
  ahead token ht := by
    simp only [lookAheads,List.mem_cons,List.not_mem_nil,or_false] at ht
    cases connective <;>
      rcases ht with rfl | rfl | rfl | rfl | rfl | rfl | rfl | rfl | rfl | rfl | rfl <;>
        exact not_prefix_of_head_ne (by decide)

theorem Foreign.dropWhile {s : Text} (hs : Foreign s) : s.dropWhile isBlank = s := by
  cases s with
  | nil => rfl
  | cons x s => exact dropWhile_eq_self (hs.blank x rfl)

/-- The cursor `c'` stands at the place of `c` in a text that goes on with a blank and `s`. Where `c`
has come to the end, `c'` may have gone over the blank. -/
inductive Trails (s : Text) (c c' : Cursor) : Prop where
  | before (h : Twins [] (' ' :: s) 0 c c')
  | beyond (h : c.rest = []) (h' : c'.rest = s)

theorem isStop_space : IsStop ' ' := by
  constructor <;> decide

theorem isStop_bracket : IsStop ')' := by
  constructor <;> decide

namespace Trails
variable {s : Text} {c c' d : Cursor}

theorem twins (h : Trails s c c') (hc : c.rest ≠ []) : Twins [] (' ' :: s) 0 c c' := by
  cases h with
  | before h => exact h
  | beyond h _ => exact absurd h hc

theorem rest_skipBlank (hs : Foreign s) (h : Trails s c c') (hc : c.skipBlank.rest = []) :
    c'.skipBlank.rest = s := by
  rw [Cursor.rest_skipBlank] at hc ⊢
  cases h with
  | before h =>
    rw [h.rest_eq,List.dropWhile_append,hc,List.isEmpty_nil,if_pos rfl,List.dropWhile_cons,if_pos isBlank_space,
      hs.dropWhile]
  | beyond _ h => rw [h,hs.dropWhile]

theorem skipBlank (hs : Foreign s) (h : Trails s c c') : Trails s c.skipBlank c'.skipBlank := by
  by_cases hc : c.skipBlank.rest = []
  · exact .beyond hc (h.rest_skipBlank hs hc)
  · have hne : c.rest ≠ [] := by
      intro hnil
      rw [Cursor.rest_skipBlank,hnil] at hc
      exact hc rfl
    exact .before ((h.twins hne).skipWhile_of_stop (Or.inl hc)).2

end Trails

section Trails
variable {s : Text}

theorem heeds_trails (hs : Foreign s) {token : Text} (ht : token ∈ lookAheads) :
    Heeds (Trails s) token where
  present := by
    intro c c' h hp
    have hc : c.rest ≠ [] := by
      intro hc
      rw [hc,List.prefix_nil] at hp
      subst hp
      exact absurd ht (by decide)
    have htwins := h.twins hc
    exact ⟨htwins.prefix_again hp,.before (htwins.advance (by simpa using hp.length_le))⟩
  absent := by
    intro c c' h hn
    cases h with
    | before h =>
      exact (heeds_twins (begins_nil ' ') (begins_cons ' ' s) (isStop_space.ahead token ht)).absent h hn
    | beyond _ h =>
      rw [h]
      exact hs.ahead token ht

theorem lockstep_trails (hs : Foreign s) : Lockstep (· + 0) (fun _ => True) (Trails s) where
  guard _ _ _ _ := trivial
  offset _ _ h hc := (h.twins hc).offset
  atName _ _ h hc := (h.twins hc).any_head (begins_nil ' ') (begins_cons ' ' s) isStop_space.start
  atQuote _ _ h hc := (h.twins hc).any_head (begins_nil ' ') (begins_cons ' ' s) isStop_space.quote
  heeds _ ht := heeds_trails hs ht
  skipBlank _ _ h := h.skipBlank hs
  expect := by
    intro c c' d role token h ht he _
    have hne : token ≠ [] := by
      rintro rfl
      exact absurd ht (by decide)
    obtain ⟨d',he',h'⟩ := (h.twins (rest_ne_nil_of_expect hne he)).expect_again he
    exact ⟨d',he',.before h'⟩
  name := by
    intro c c' d problem t h hn
    obtain ⟨d',hn',h'⟩ := (h.twins (rest_ne_nil_of_name hn)).name (begins_nil ' ')
      (begins_cons ' ' s) isStop_space hn
    exact ⟨d',hn',.before h'⟩
  literal := by
    intro c c' d t h hl _
    have hc : c.rest ≠ [] := by
      obtain ⟨quote,rest,_,hr,_⟩ := literal_eq_ok.mp hl
      rw [hr]
      exact List.cons_ne_nil quote rest
    obtain ⟨d',hl',h'⟩ := carries_literal hl (h.twins hc) (Nat.zero_le _)
    exact ⟨d',hl',.before h'⟩

/-- What stands in brackets ends at the bracket, whatever follows that. -/
theorem trails_condition {levels : Nat} {c c' c₁ d : Cursor} {x : Condition}
    (hx : condition levels c = .ok (x,c₁)) (he : expect .symbol [')'] c₁.skipBlank = .ok d)
    (h : Trails s c c') :
    ∃ c₁', condition levels c' = .ok (x.relocate (· + 0),c₁') ∧ Trails s c₁ c₁' := by
  obtain ⟨⟨r,hr⟩,_⟩ := expect_eq_ok.mp he
  have hreach := (moves_condition levels hx).trans (Cursor.reaches_skipBlank c₁)
  have hc : c.rest ≠ [] := by
    intro hc
    have hle := hreach.length_le
    rw [hc,← hr] at hle
    exact absurd hle (by simp)
  have ht := (h.twins hc).narrow hreach
  have hv : Begins ')' c₁.skipBlank.rest := by
    rw [← hr]
    exact begins_cons _ _
  have hw : Begins ')' (c₁.skipBlank.rest ++ ' ' :: s) := by
    rw [← hr]
    exact begins_cons _ _
  obtain ⟨c₁',hx',ht'⟩ := follows_condition (lockstep_twins isStop_bracket (by decide) hv hw)
    (heeds_twins hv hw (by decide)) (heeds_twins hv hw (by decide)) levels hx ht
    (Cursor.length_skipBlank_le c₁)
  exact ⟨c₁',hx',.before ht'.widen⟩

end Trails

/-- A condition that is read on its own is read where its text is all that is left. -/
theorem condition_at_end {levels k : Nat} {q : Text} {y : Condition} {c e : Cursor}
    (hy : condition levels (.start q) = .ok (y,e)) (he : e.skipBlank.rest = [])
    (hrest : c.rest = (Cursor.start q).skipBlank.rest)
    (hoffset : c.offset + c.rest.length = q.length + k) :
    ∃ e', condition levels c = .ok (y.relocate (· + k),e') ∧ e'.skipBlank.rest = [] := by
  have hq := (Cursor.reaches_skipBlank (.start q)).offset_of_start
  rw [hrest] at hoffset
  have ht : Twins [] [] k (Cursor.start q).skipBlank c := twins_of_rest_eq hrest (by omega)
  have hv : Closed [] := begins_nil _
  obtain ⟨e',hy',ht'⟩ := carries_condition hv hv levels (condition_of_skipBlank hy) ht (Nat.zero_le _)
  refine ⟨e',hy',?_⟩
  rw [Cursor.rest_skipBlank,ht'.rest_eq,List.append_nil,← Cursor.rest_skipBlank,he]

/-- A condition that is no join, a connective and a condition are read as their join. -/
theorem readCondition_join {levels : Nat} {p q : Text} {x y : Condition} (connective : Connective)
    (hx : readCondition (levels + 1) p = .ok x) (hj : ¬x.IsJoin)
    (hy : readCondition levels q = .ok y) :
    readCondition (levels + 1) (p ++ ' ' :: (connective.word ++ ' ' :: q)) =
      .ok (.join connective x (y.relocate (· + (p.length + connective.word.length + 2)))) := by
  obtain ⟨d,hx,hd⟩ := readCondition_eq_ok.mp hx
  obtain ⟨e,hy,he⟩ := readCondition_eq_ok.mp hy
  obtain ⟨left,c₁,ho,hr⟩ := conditionWith_eq_ok.mp hx
  obtain ⟨_,_,_,_,_,rfl⟩ | ⟨_,rfl,rfl⟩ := conditionTail_eq_ok.mp hr
  · exact absurd trivial hj
  · let s : Text := connective.word ++ ' ' :: q
    let c : Cursor := .start (p ++ ' ' :: s)
    have hs : Foreign s := foreign_word connective _
    have L := lockstep_trails hs
    have ht : Trails s (.start p) c := .before ⟨⟨p,(List.append_nil p).symm,rfl⟩,rfl⟩
    -- the left side ends before the connective
    obtain ⟨c₁',ho',ht₁⟩ := follows_operandWith L levels
      (fun _ _ _ _ _ hx he h _ => trails_condition hx he h) ho (L.skipBlank ht) trivial
    have hleft : left.relocate (· + 0) = left := left.relocate_id
    rw [hleft] at ho'
    have hrest : c₁'.skipBlank.rest = connective.word ++ ' ' :: q := by
      refine ht₁.rest_skipBlank hs ?_
      rwa [Cursor.skipBlank_skipBlank] at hd
    obtain ⟨c₂,hk,hrest₂⟩ := exists_connective connective hrest
    -- the right side is all that follows it
    have hoperand := (consumes_operandWith (moves_condition levels) (consumes_argument levels)
      (consumes_array levels).moves ho').1
    have hreach : c.Reaches c₂ := (Cursor.reaches_skipBlank c).trans <|
      hoperand.trans <| (Cursor.reaches_skipBlank c₁').trans (reaches_of_word? hk)
    have hsame : c₂.rest = (Cursor.start q).skipBlank.rest := by
      rw [hrest₂,Cursor.rest_skipBlank]
      rfl
    have hoffset : c₂.offset + c₂.rest.length = q.length + (p.length + connective.word.length + 2) := by
      rw [hreach.offset_of_start]
      simp only [s,List.length_append,List.length_cons]
      omega
    obtain ⟨e',hy',he'⟩ := condition_at_end hy he hsame hoffset
    exact readCondition_eq_ok.mpr ⟨e',conditionWith_eq_ok.mpr ⟨left,c₁',ho',
      conditionTail_eq_ok.mpr (Or.inl ⟨connective,c₂,_,hk,hy',rfl⟩)⟩,he'⟩

/-- On `levels` levels the text is read as `x`, which is evaluated to `holds`. -/
structure Checks (methods : Text → Option Method) (vars : Mapping) (levels : Nat) (t : Text)
    (x : Condition) (holds : Bool) : Prop where
  read : readCondition levels t = .ok x
  value : (x.eval ⟨.start vars,.byName methods⟩).result = .ok holds

section Values
variable {methods : Text → Option Method} {vars : Mapping} {levels : Nat}

theorem check_eq_ok {options : Options} {t : Text} {holds : Bool} :
    (Template.check ceiling (.byName methods) options vars t).result = .ok holds ↔
      ∃ x, Checks methods vars (levelsFor ceiling options.maxDepth) t x holds := by
  cases h : readCondition (levelsFor ceiling options.maxDepth) t with
  | error fault =>
    obtain ⟨refusal,hr⟩ := check_refused (.byName methods) vars h
    rw [hr]
    constructor
    · intro hc
      cases hc
    · rintro ⟨x,hx⟩
      cases h.symm.trans hx.read
  | ok x =>
    rw [(check_evaluates (.byName methods) vars h).1,mapError_eq_ok]
    constructor
    · intro hv
      exact ⟨x,h,hv⟩
    · rintro ⟨y,hy⟩
      obtain rfl := Except.ok.inj (h.symm.trans hy.read)
      exact hy.value

theorem Checks.more {levels' : Nat} {t : Text} {x : Condition} {holds : Bool}
    (h : Checks methods vars levels t x holds) (hle : levels ≤ levels') :
    Checks methods vars levels' t x holds :=
  ⟨(cut_readCondition hle t).ok_again h.read,h.value⟩

theorem Checks.join {p q : Text} {x y : Condition} {a b : Bool} (connective : Connective)
    (hp : Checks methods vars (levels + 1) p x a) (hj : ¬x.IsJoin) (hq : Checks methods vars levels q y b) :
    Checks methods vars (levels + 1) (p ++ ' ' :: (connective.word ++ ' ' :: q))
      (.join connective x (y.relocate (· + (p.length + connective.word.length + 2))))
      (connective.apply a b) where
  read := readCondition_join connective hp.read hj hq.read
  value := by
    have hright : ((y.relocate (· + (p.length + connective.word.length + 2))).eval
        ⟨.start vars,.byName methods⟩).result = .ok b := by
      rw [Condition.eval_relocate,Env.relocate_byName]
      exact mapError_eq_ok.mpr hq.value
    rw [Condition.eval]
    exact Run.result_bind_eq_ok.mpr ⟨a,hp.value,Run.result_bind_eq_ok.mpr ⟨b,hright,rfl⟩⟩

end Values

/-- A text with the connective behind it and its truth value. -/
structure Link where
  text : Text
  connective : Connective
  holds : Bool

def chainSource : List Link → Text → Text
  | [],last => last
  | link :: links,last => link.text ++ ' ' :: (link.connective.word ++ ' ' :: chainSource links last)

def chainValue (links : List Link) (last : Bool) : Bool :=
  links.foldr (fun link rest => link.connective.apply link.holds rest) last

/-- Each link takes one level more than what follows it. -/
theorem checks_chain {methods : Text → Option Method} {vars : Mapping} {levels : Nat}
    {links : List Link} {last : Text} {b : Bool}
    (hlinks : ∀ link ∈ links, ∃ x, Checks methods vars levels link.text x link.holds ∧ ¬x.IsJoin)
    (hlast : ∃ y, Checks methods vars levels last y b) :
    ∃ z, Checks methods vars (levels + links.length) (chainSource links last) z (chainValue links b) := by
  induction links with
  | nil => exact hlast
  | cons link links ih =>
    obtain ⟨x,hx,hj⟩ := hlinks link List.mem_cons_self
    obtain ⟨z,hz⟩ := ih fun link' h => hlinks link' (List.mem_cons_of_mem link h)
    have hx' := hx.more (show levels ≤ levels + links.length + 1 by omega)
    exact ⟨_,hx'.join link.connective hj hz⟩

/-- A chain has the value of its parts' values grouped to the right, under every limit that is deep
enough for its text. Each part is no join but for the last one, which may be anything. -/
theorem check_chain (methods : Text → Option Method) (options options' : Options) (vars : Mapping)
    (links : List Link) (last : Text) {b : Bool}
    (hlinks : ∀ link ∈ links,
      (∃ x, (Template.readCondition ceiling options.maxDepth link.text).result = .ok x ∧ ¬x.IsJoin) ∧
      (Template.check ceiling (.byName methods) options vars link.text).result = .ok link.holds)
    (hlast : (Template.check ceiling (.byName methods) options vars last).result = .ok b)
    (hdeep : ∀ refusal, (Template.readCondition ceiling options'.maxDepth (chainSource links last)).result =
      .error (.refused refusal) → refusal.isTooDeep = false) :
    (Template.check ceiling (.byName methods) options' vars (chainSource links last)).result =
      .ok (chainValue links b) := by
  have hparts : ∀ link ∈ links, ∃ x,
      Checks methods vars (levelsFor ceiling options.maxDepth) link.text x link.holds ∧ ¬x.IsJoin := by
    intro link hmem
    obtain ⟨⟨x,hr,hj⟩,hc⟩ := hlinks link hmem
    obtain ⟨y,hy⟩ := check_eq_ok.mp hc
    rw [Template.readCondition_result,mapError_eq_ok,hy.read] at hr
    obtain rfl := Except.ok.inj hr
    exact ⟨y,hy,hj⟩
  obtain ⟨z,hz⟩ := checks_chain hparts (check_eq_ok.mp hlast)
  refine check_eq_ok.mpr ⟨z,?_⟩
  obtain hle | hle := Nat.le_total (levelsFor ceiling options.maxDepth + links.length) (levelsFor ceiling options'.maxDepth)
  · exact hz.more hle
  · refine ⟨(cut_readCondition hle _).ok_of_not_tooDeep hz.read fun fault hf htoo => ?_,hz.value⟩
    have hresult := Template.readCondition_result ceiling options'.maxDepth (chainSource links last)
    rw [hf] at hresult
    have hfalse := hdeep _ hresult
    rw [Refusal.isTooDeep_iff.mpr htoo] at hfalse
    cases hfalse

/-- To the left, `x and ('a' in ['b'])` would be false and the chain would hold for its last part. -/
theorem check_chain_of_brackets :
    (Template.check 1000 (.byName fun name => if name = ['f'] then some fun v _ => .ok v else none)
      { maxDepth := 4 } [] "x and ('a' in ['b']) or '1' -> f()".toList).result = .ok false := by
  have hlast : (Template.check 1000 (.byName fun name => if name = ['f'] then some fun v _ => .ok v else none)
      { maxDepth := 3 } [] "'1' -> f()".toList).result = .ok true := by cbv
  have hread : (Template.readCondition 1000 (4 : Nat) "x and ('a' in ['b']) or '1' -> f()".toList).result.isOk =
      true := by cbv
  refine check_chain _ { maxDepth := 3 } { maxDepth := 4 } []
    [⟨"x".toList,.and,false⟩,⟨"('a' in ['b'])".toList,.or,false⟩] "'1' -> f()".toList ?_ hlast ?_
  · intro link hmem
    rcases List.mem_cons.mp hmem with rfl | hmem
    · exact ⟨⟨.holds (.mk (.variable ['x'] []) []),by cbv,id⟩,by cbv⟩
    · obtain rfl := List.mem_singleton.mp hmem
      exact ⟨⟨.brackets (.among false (.ofText ['a']) [.ofText ['b']]),by cbv,id⟩,by cbv⟩
  · intro refusal h
    rw [show chainSource _ _ = "x and ('a' in ['b']) or '1' -> f()".toList from rfl] at h
    rw [h] at hread
    cases hread

end Stencil

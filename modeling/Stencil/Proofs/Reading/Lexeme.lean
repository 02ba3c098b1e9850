import Stencil.Grammar.Lexeme
import Stencil.Proofs.Except

/-! # When lexemes are read

A reading that succeeds leaves its cursor ahead of where it began. For every lexeme one
lemma says exactly when it is read and where the cursor then stands; a repetition is read
just if its rounds are read one after the other.
-/
namespace Stencil

namespace Cursor

/-- Whether `d` stands in the same text as `c`, and not before it. -/
def Reaches (c d : Cursor) : Prop := ∃ n, n ≤ c.rest.length ∧ d = c.advance n

@[simp] theorem advance_zero (c : Cursor) : c.advance 0 = c := rfl

/-- Moving past the end is moving to the end. -/
theorem advance_length_min (n : Nat) (c : Cursor) : c.advance (min n c.rest.length) = c.advance n := by
  induction n generalizing c with
  | zero => simp
  | succ n ih =>
    rcases c with ⟨offset,position,_ | ⟨x,rest⟩⟩
    · simp [advance]
    · simpa [advance,Nat.succ_min_succ] using ih ⟨offset+1,position.next x,rest⟩

theorem reaches_advance (n : Nat) (c : Cursor) : c.Reaches (c.advance n) :=
  ⟨min n c.rest.length,Nat.min_le_right _ _,(advance_length_min n c).symm⟩

theorem Reaches.refl (c : Cursor) : c.Reaches c := reaches_advance 0 c

theorem Reaches.trans {c d e : Cursor} (h : c.Reaches d) (he : d.Reaches e) : c.Reaches e := by
  obtain ⟨m,hm,rfl⟩ := h
  obtain ⟨n,hn,rfl⟩ := he
  rw [advance_advance]
  exact reaches_advance (m+n) c

theorem reaches_skipWhile (p : Char → Bool) (c : Cursor) : c.Reaches (c.skipWhile p) :=
  reaches_advance _ c

theorem reaches_skipBlank (c : Cursor) : c.Reaches c.skipBlank := reaches_skipWhile isBlank c

theorem Reaches.length_le {c d : Cursor} (h : c.Reaches d) : d.rest.length ≤ c.rest.length := by
  obtain ⟨n,hn,rfl⟩ := h
  rw [rest_advance, List.length_drop]
  omega

theorem rest_skipBlank (c : Cursor) : c.skipBlank.rest = c.rest.dropWhile isBlank :=
  rest_skipWhile isBlank c

theorem length_skipBlank_le (c : Cursor) : c.skipBlank.rest.length ≤ c.rest.length :=
  (reaches_skipBlank c).length_le

/-- Moving over what the text begins with. -/
theorem rest_advance_of_append {c : Cursor} {u s : Text} (h : c.rest = u ++ s) :
    (c.advance u.length).rest = s := by
  rw [rest_advance,h,List.drop_left]

theorem rest_advance_one {c : Cursor} {x : Char} {s : Text} (h : c.rest = x :: s) :
    (c.advance 1).rest = s := by
  rw [rest_advance,h,List.drop_one,List.tail_cons]

theorem skipBlank_eq_self {c : Cursor} {x : Char} {s : Text} (h : c.rest = x :: s)
    (hx : isBlank x = false) : c.skipBlank = c := by
  simp [skipBlank,skipWhile,h,hx]

theorem skipBlank_of_blank {c : Cursor} {x : Char} {s : Text} (h : c.rest = x :: s)
    (hx : isBlank x = true) : c.skipBlank = (c.advance 1).skipBlank := by
  rw [skipBlank,skipBlank,skipWhile,skipWhile,rest_advance_one h,h,List.takeWhile_cons,if_pos hx,
    List.length_cons,advance_advance,Nat.add_comm]

theorem skipBlank_skipBlank (c : Cursor) : c.skipBlank.skipBlank = c.skipBlank := by
  cases h : c.skipBlank.rest with
  | nil =>
    rw [skipBlank,skipWhile,h]
    rfl
  | cons x s =>
    have hx := List.head?_dropWhile_not isBlank c.rest
    rw [← rest_skipBlank,h] at hx
    exact skipBlank_eq_self h (by simpa using hx)

theorem Reaches.offset {c d : Cursor} (h : c.Reaches d) :
    d.offset + d.rest.length = c.offset + c.rest.length := by
  obtain ⟨n,hn,rfl⟩ := h
  rw [offset_advance,rest_advance,List.length_drop]
  omega

theorem Reaches.offset_of_start {source : Text} {d : Cursor} (h : (start source).Reaches d) :
    d.offset + d.rest.length = source.length := h.offset.trans (Nat.zero_add _)

theorem startsWith_iff {c : Cursor} {token : Text} :
    c.startsWith token = true ↔ token <+: c.rest := List.isPrefixOf_iff_prefix

end Cursor

namespace Grammar

theorem name_eq_ok {problem : Problem} {c d : Cursor} {t : Text} :
    name problem c = .ok (t,d) ↔ t = nameAt c.rest ∧ t ≠ [] ∧ d = c.advance t.length := by
  change (if nameAt c.rest = [] then .error (c.fault problem 1)
    else .ok (nameAt c.rest,c.advance (nameAt c.rest).length)) = Except.ok (t,d) ↔ _
  split
  · next h =>
    simp only [reduceCtorEq,false_iff]
    rintro ⟨rfl,hne,_⟩
    exact hne h
  · next h =>
    simp only [Except.ok.injEq,Prod.mk.injEq]
    constructor
    · rintro ⟨rfl,rfl⟩
      exact ⟨rfl,h,rfl⟩
    · rintro ⟨rfl,_,rfl⟩
      exact ⟨rfl,rfl⟩

theorem expect_eq_ok {role : Role} {token : Text} {c d : Cursor} :
    expect role token c = .ok d ↔ token <+: c.rest ∧ d = c.advance token.length := by
  have hpeek : c.peek token.length = token ↔ token <+: c.rest := by
    rw [List.prefix_iff_eq_take,Cursor.peek]
    exact eq_comm
  simp only [expect]
  split
  · next h => simp [hpeek.mp h,eq_comm]
  · next h =>
    have hn : ¬ token <+: c.rest := fun hp => h (hpeek.mpr hp)
    split <;> simp [hn]

theorem keyword?_eq_some {word : Text} {c d : Cursor} :
    keyword? word c = some d ↔ word <+: c.rest ∧ d = (c.advance word.length).skipBlank := by
  rw [← Cursor.startsWith_iff]
  simp only [keyword?]
  split
  · next h => simp [h,eq_comm]
  · next h => simp [h]

theorem keyword?_eq_none {word : Text} {c : Cursor} :
    keyword? word c = none ↔ ¬ word <+: c.rest := by
  rw [← Cursor.startsWith_iff]
  simp [keyword?]

theorem literal_eq_ok {c d : Cursor} {t : Text} :
    literal c = .ok (t,d) ↔ ∃ quote rest n, c.rest = quote :: rest ∧ isQuote quote = true ∧
      unquote? quote rest = some (t,n) ∧ d = c.advance (n+1) := by
  simp only [literal]
  split
  · next h => simp [h]
  · next quote rest h =>
    split
    · next hq =>
      split
      · next t' n hu =>
        simp only [Except.ok.injEq,Prod.mk.injEq]
        constructor
        · rintro ⟨rfl,rfl⟩
          exact ⟨quote,rest,n,h,hq,hu,rfl⟩
        · rintro ⟨quote',rest',n',h',_,hu',rfl⟩
          obtain ⟨rfl,rfl⟩ := List.cons.inj (h.symm.trans h')
          obtain ⟨rfl,rfl⟩ := Prod.mk.inj (Option.some.inj (hu.symm.trans hu'))
          exact ⟨rfl,rfl⟩
      · next hu =>
        simp only [reduceCtorEq,false_iff]
        rintro ⟨quote',rest',n',h',_,hu',rfl⟩
        obtain ⟨rfl,rfl⟩ := List.cons.inj (h.symm.trans h')
        simp [hu] at hu'
    · next hq =>
      simp only [reduceCtorEq,false_iff]
      rintro ⟨quote',rest',n',h',hq',_⟩
      obtain ⟨rfl,rfl⟩ := List.cons.inj (h.symm.trans h')
      exact hq hq'

theorem take_eq_ok {n : Nat} {c d : Cursor} {t : Text} :
    take n c = .ok (t,d) ↔ n ≤ c.rest.length ∧ t = c.rest.take n ∧ d = c.advance n := by
  simp only [take]
  split
  · next h => simp [Nat.not_le.mpr h]
  · next h => simp [Nat.not_lt.mp h,Cursor.peek,eq_comm]

theorem unquote?_quote (quote : Char) (s : Text) : unquote? quote (quote :: s) = some ([],1) := by
  rw [unquote?.eq_def]
  simp

theorem unquote?_escape {quote : Char} (hq : quote ≠ '\\') (x : Char) (s : Text) :
    unquote? quote ('\\' :: x :: s) = (unquote? quote s).map fun (t,n) => (x :: t,n+2) := by
  rw [unquote?.eq_def]
  simp [hq.symm]

theorem unquote?_plain {quote x : Char} (hq : x ≠ quote) (hb : x ≠ '\\') (s : Text) :
    unquote? quote (x :: s) = (unquote? quote s).map fun (t,n) => (x :: t,n+1) := by
  rw [unquote?.eq_def]
  simp [hq,hb]

/-- The characters up to and with the closing quote are there. -/
theorem length_le_of_unquote? {quote : Char} {s t : Text} {n : Nat}
    (h : unquote? quote s = some (t,n)) : n ≤ s.length := by
  fun_induction unquote? quote s generalizing t n with
  | case1 => simp at h
  | case2 rest =>
    obtain ⟨rfl,rfl⟩ := Prod.mk.inj (Option.some.inj h)
    simp
  | case3 => simp at h
  | case4 _ d rest ih =>
    obtain ⟨⟨t',n'⟩,hr,he⟩ := Option.map_eq_some_iff.mp h
    obtain ⟨rfl,rfl⟩ := Prod.mk.inj he
    have := ih hr
    simp only [List.length_cons]
    omega
  | case5 c rest _ _ ih =>
    obtain ⟨⟨t',n'⟩,hr,he⟩ := Option.map_eq_some_iff.mp h
    obtain ⟨rfl,rfl⟩ := Prod.mk.inj he
    have := ih hr
    simp only [List.length_cons]
    omega

/-- Never moves back. -/
def Moves (reading : Reading α) : Prop := ∀ ⦃c x d⦄, reading c = .ok (x,d) → c.Reaches d

/-- Takes one character at least. -/
def Consumes (reading : Reading α) : Prop :=
  ∀ ⦃c x d⦄, reading c = .ok (x,d) → c.Reaches d ∧ d.rest.length < c.rest.length

theorem Consumes.moves {reading : Reading α} (h : Consumes reading) : Moves reading :=
  fun _ _ _ he => (h he).1

theorem consumes_tooDeep : Consumes (tooDeep (α := α)) := by
  intro c x d h
  cases h

theorem moves_tooDeep : Moves (tooDeep (α := α)) := consumes_tooDeep.moves

theorem reaches_of_expect {role : Role} {token : Text} {c d : Cursor}
    (h : expect role token c = .ok d) : c.Reaches d := by
  obtain ⟨_,rfl⟩ := expect_eq_ok.mp h
  exact Cursor.reaches_advance _ c

theorem length_of_expect {role : Role} {token : Text} {c d : Cursor}
    (h : expect role token c = .ok d) : d.rest.length + token.length = c.rest.length := by
  obtain ⟨⟨s,hs⟩,rfl⟩ := expect_eq_ok.mp h
  rw [Cursor.rest_advance_of_append hs.symm,← hs,List.length_append,Nat.add_comm]

theorem nameAt_isPrefix (s : Text) : nameAt s <+: s := by
  cases s with
  | nil => exact List.prefix_refl []
  | cons c s =>
    simp only [nameAt]
    split
    · exact List.cons_prefix_cons.mpr ⟨rfl,List.takeWhile_prefix isNameChar⟩
    · exact List.nil_prefix

theorem length_nameAt_le (s : Text) : (nameAt s).length ≤ s.length := (nameAt_isPrefix s).length_le

theorem consumes_name (problem : Problem) : Consumes (name problem) := by
  intro c t d h
  obtain ⟨ht,hne,rfl⟩ := name_eq_ok.mp h
  have hle := length_nameAt_le c.rest
  have hpos := List.length_pos_iff.mpr hne
  refine ⟨Cursor.reaches_advance _ c,?_⟩
  rw [Cursor.rest_advance,List.length_drop]
  rw [← ht] at hle
  omega

theorem consumes_literal : Consumes literal := by
  intro c t d h
  obtain ⟨quote,rest,n,hr,_,_,rfl⟩ := literal_eq_ok.mp h
  refine ⟨Cursor.reaches_advance _ c,?_⟩
  rw [Cursor.rest_advance,List.length_drop,hr,List.length_cons]
  omega

/-- One round of `item` after the other, as long as `test` holds. -/
inductive Rounds (test : Cursor → Bool) (item : Reading α) : Cursor → List α → Cursor → Prop where
  | stop {c : Cursor} (h : test c = false) : Rounds test item c [] c
  | next {c c₁ d : Cursor} {x : α} {xs : List α} (h : test c = true) (hx : item c = .ok (x,c₁))
      (hxs : Rounds test item c₁ xs d) : Rounds test item c (x :: xs) d

/-- `item` can be repeated: at the end of the text no round begins, and every round takes
a character at least. -/
structure Repeats (test : Cursor → Bool) (item : Reading α) : Prop where
  stops : ∀ c : Cursor, c.rest = [] → test c = false
  consumes : ∀ ⦃c x d⦄, test c = true → item c = .ok (x,d) →
    c.Reaches d ∧ d.rest.length < c.rest.length

variable {test : Cursor → Bool} {item : Reading α}

theorem manyWithin_eq_ok (h : Repeats test item) (bound : Text) {c d : Cursor} {xs : List α}
    (hb : c.rest.length ≤ bound.length) :
    manyWithin test item bound c = .ok (xs,d) ↔ Rounds test item c xs d := by
  induction bound generalizing c xs with
  | nil =>
    have hs := h.stops c (List.length_eq_zero_iff.mp (Nat.le_zero.mp hb))
    simp only [manyWithin,Except.ok.injEq,Prod.mk.injEq]
    constructor
    · rintro ⟨rfl,rfl⟩
      exact .stop hs
    · rintro (_ | ⟨ht,_,_⟩)
      · exact ⟨rfl,rfl⟩
      · simp [hs] at ht
  | cons b bound ih =>
    simp only [manyWithin]
    split
    · next ht =>
      simp only [bind_eq_ok,Prod.exists,pure,Except.pure,Except.ok.injEq,Prod.mk.injEq]
      constructor
      · rintro ⟨x,c₁,hx,xs',d',hxs,rfl,rfl⟩
        have hlt := (h.consumes ht hx).2
        exact .next ht hx ((ih (by simp only [List.length_cons] at hb; omega)).mp hxs)
      · rintro (hf | ⟨_,hx,hxs⟩)
        · simp [ht] at hf
        · have hlt := (h.consumes ht hx).2
          exact ⟨_,_,hx,_,_,(ih (by simp only [List.length_cons] at hb; omega)).mpr hxs,rfl,rfl⟩
    · next ht =>
      simp only [Bool.not_eq_true] at ht
      simp only [Except.ok.injEq,Prod.mk.injEq]
      constructor
      · rintro ⟨rfl,rfl⟩
        exact .stop ht
      · rintro (_ | ⟨ht',_,_⟩)
        · exact ⟨rfl,rfl⟩
        · simp [ht] at ht'

theorem many_eq_ok (h : Repeats test item) {c d : Cursor} {xs : List α} :
    many test item c = .ok (xs,d) ↔ Rounds test item c xs d :=
  manyWithin_eq_ok h c.rest Nat.le.refl

theorem Rounds.reaches (h : Repeats test item) {c d : Cursor} {xs : List α}
    (hr : Rounds test item c xs d) : c.Reaches d := by
  induction hr with
  | stop => exact Cursor.Reaches.refl _
  | next ht hx _ ih => exact (h.consumes ht hx).1.trans ih

end Grammar

end Stencil

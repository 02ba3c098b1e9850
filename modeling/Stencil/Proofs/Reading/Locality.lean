import Stencil.Proofs.Reading.Literal
import Stencil.Proofs.Reading.Lockstep

/-! # What a reading looks at

The readings of arguments and conditions look no further than what they take, but for
telling that a lexeme ends there. Where both tails end every lexeme, a reading that stays
before the tail of one text does the same before the tail of the other, and finds the same
tree with its calls moved along.
-/
namespace Stencil.Grammar

/-- Every lexeme ends before `s`, which is empty or begins with a closing brace. -/
def Closed (s : Text) : Prop := ∀ x ∈ s.head?, x = '\x7d'

/-- Both cursors stand before the same text, with the tail `v` behind it at `c` and the tail
`w` at `c'`, which is `k` characters further on. -/
structure Twins (v w : Text) (k : Nat) (c c' : Cursor) : Prop where
  same : ∃ u, c.rest = u ++ v ∧ c'.rest = u ++ w
  offset : c'.offset = c.offset + k

/-- What is read before the tail of one text is read before the tail of the other. -/
def Carries (v w : Text) (k : Nat) (g : α → α) (reading : Reading α) : Prop :=
  ∀ ⦃c c' d x⦄, reading c = .ok (x,d) → Twins v w k c c' → v.length ≤ d.rest.length →
    ∃ d', reading c' = .ok (g x,d') ∧ Twins v w k d d'

variable {v w : Text} {k : Nat} {c c' d : Cursor}

theorem Twins.advance (h : Twins v w k c c') {n : Nat} (hn : v.length + n ≤ c.rest.length) :
    Twins v w k (c.advance n) (c'.advance n) := by
  obtain ⟨⟨u,hc,hc'⟩,ho⟩ := h
  have hle : n ≤ u.length := by
    rw [hc,List.length_append] at hn
    omega
  refine ⟨⟨u.drop n,?_,?_⟩,?_⟩
  · rw [Cursor.rest_advance,hc,List.drop_append_of_le_length hle]
  · rw [Cursor.rest_advance,hc',List.drop_append_of_le_length hle]
  · rw [Cursor.offset_advance,Cursor.offset_advance,hc,hc',List.length_append,List.length_append]
    omega

/-- The text is empty or begins with `x`. -/
def Begins (x : Char) (s : Text) : Prop := ∀ y ∈ s.head?, y = x

theorem begins_nil (x : Char) : Begins x [] := by
  intro y hy
  cases hy

theorem begins_cons (x : Char) (s : Text) : Begins x (x :: s) := by
  rintro y ⟨⟩
  rfl

/-- No name goes on with `x`, no literal begins with it and no token that is looked for has it. -/
structure IsStop (x : Char) : Prop where
  quote : isQuote x = false
  start : isNameStart x = false
  name : isNameChar x = false
  ahead : ∀ token ∈ lookAheads, x ∉ token

theorem isStop_brace : IsStop '\x7d' := by
  constructor <;> decide

section Lexemes
variable {x : Char} (hv : Begins x v) (hw : Begins x w)

theorem prefix_append_iff (hv : Begins x v) {token u : Text} (ht : x ∉ token) :
    token <+: u ++ v ↔ token <+: u := by
  constructor
  · intro h
    rcases List.prefix_or_prefix_of_prefix h (List.prefix_append u v) with hp | ⟨r,rfl⟩
    · exact hp
    · have hr : r <+: v := (List.prefix_append_right_inj u).mp h
      cases r with
      | nil => simp
      | cons y r =>
        obtain ⟨s,rfl⟩ := hr
        have hy := hv y rfl
        subst hy
        exact absurd (by simp) ht
  · intro h
    exact h.trans (List.prefix_append u v)

theorem any_head_append (hv : Begins x v) {p : Char → Bool} (hp : p x = false) (u : Text) :
    (u ++ v).head?.any p = u.head?.any p := by
  cases u with
  | nil =>
    cases v with
    | nil => rfl
    | cons y v => simp [hv y rfl,hp]
  | cons y u => rfl

theorem takeWhile_append_of_begins (hv : Begins x v) {p : Char → Bool} (hp : p x = false) (u : Text) :
    (u ++ v).takeWhile p = u.takeWhile p := by
  induction u with
  | nil =>
    cases v with
    | nil => rfl
    | cons y v => simp [hv y rfl,hp]
  | cons y u ih => simp only [List.cons_append,List.takeWhile_cons,ih]

theorem nameAt_append_of_begins (hx : IsStop x) (hv : Begins x v) (u : Text) :
    nameAt (u ++ v) = nameAt u := by
  cases u with
  | nil =>
    cases v with
    | nil => rfl
    | cons y v =>
      obtain rfl := hv y rfl
      simp [nameAt,hx.start]
  | cons y u => rw [List.cons_append,nameAt,nameAt,takeWhile_append_of_begins hv hx.name]

include hv

theorem Twins.advance_of_prefix (h : Twins v w k c c') {token : Text} (ht : x ∉ token)
    (hp : token <+: c.rest) : Twins v w k (c.advance token.length) (c'.advance token.length) := by
  obtain ⟨u,hc,_⟩ := h.same
  have hu : token <+: u := (prefix_append_iff hv ht).mp (hc ▸ hp)
  have hle := hu.length_le
  refine h.advance ?_
  rw [hc,List.length_append]
  omega

include hw

theorem Twins.prefix_iff (h : Twins v w k c c') {token : Text} (ht : x ∉ token) :
    token <+: c'.rest ↔ token <+: c.rest := by
  obtain ⟨⟨u,hc,hc'⟩,_⟩ := h
  rw [hc,hc',prefix_append_iff hv ht,prefix_append_iff hw ht]

theorem Twins.any_head (h : Twins v w k c c') {p : Char → Bool} (hp : p x = false) :
    c'.rest.head?.any p = c.rest.head?.any p := by
  obtain ⟨⟨u,hc,hc'⟩,_⟩ := h
  rw [hc,hc',any_head_append hv hp,any_head_append hw hp]

theorem heeds_twins {token : Text} (ht : x ∉ token) : Heeds (Twins v w k) token where
  present _ _ h hp := ⟨(h.prefix_iff hv hw ht).mpr hp,h.advance_of_prefix hv ht hp⟩
  absent _ _ h := mt (h.prefix_iff hv hw ht).mp

theorem Twins.skipWhile (h : Twins v w k c c') {p : Char → Bool} (hp : p x = false) :
    Twins v w k (c.skipWhile p) (c'.skipWhile p) := by
  obtain ⟨u,hc,hc'⟩ := h.same
  have hle := (List.takeWhile_prefix p (l := u)).length_le
  rw [Cursor.skipWhile,Cursor.skipWhile,hc,hc',takeWhile_append_of_begins hv hp,
    takeWhile_append_of_begins hw hp]
  refine h.advance ?_
  rw [hc,List.length_append]
  omega

theorem Twins.expect (h : Twins v w k c c') {role : Role} {token : Text} (ht : x ∉ token)
    (he : expect role token c = .ok d) :
    ∃ d', Grammar.expect role token c' = .ok d' ∧ Twins v w k d d' := by
  obtain ⟨hp,rfl⟩ := expect_eq_ok.mp he
  exact ⟨_,expect_eq_ok.mpr ⟨(h.prefix_iff hv hw ht).mpr hp,rfl⟩,h.advance_of_prefix hv ht hp⟩

theorem Twins.name (hx : IsStop x) (h : Twins v w k c c') {problem : Problem} {t : Text}
    (hn : name problem c = .ok (t,d)) :
    ∃ d', Grammar.name problem c' = .ok (t,d') ∧ Twins v w k d d' := by
  obtain ⟨u,hc,hc'⟩ := h.same
  obtain ⟨ht,hne,rfl⟩ := name_eq_ok.mp hn
  rw [hc,nameAt_append_of_begins hx hv] at ht
  have hle := length_nameAt_le u
  rw [← ht] at hle
  refine ⟨_,name_eq_ok.mpr ⟨?_,hne,rfl⟩,h.advance ?_⟩
  · rw [hc',nameAt_append_of_begins hx hw,ht]
  · rw [hc,List.length_append]
    omega

end Lexemes

theorem Twins.skipBlank (hv : Closed v) (hw : Closed w) (h : Twins v w k c c') :
    Twins v w k c.skipBlank c'.skipBlank :=
  h.skipWhile hv hw (by decide)

/-- What is required has to end before the tail. -/
theorem Twins.expect_within (h : Twins v w k c c') {role : Role} {token : Text}
    (he : Grammar.expect role token c = .ok d) (hd : v.length ≤ d.rest.length) :
    ∃ d', Grammar.expect role token c' = .ok d' ∧ Twins v w k d d' := by
  obtain ⟨u,hc,hc'⟩ := h.same
  have hlen := length_of_expect he
  obtain ⟨hp,rfl⟩ := expect_eq_ok.mp he
  have hu : token <+: u := by
    rw [hc] at hp
    refine List.prefix_of_prefix_length_le hp (List.prefix_append u v) ?_
    rw [hc,List.length_append] at hlen
    omega
  refine ⟨_,expect_eq_ok.mpr ⟨?_,rfl⟩,h.advance (by omega)⟩
  rw [hc']
  exact hu.trans (List.prefix_append u w)

/-- A literal may hold closing braces: it has to end before the tail. -/
theorem carries_literal : Carries v w k id literal := by
  intro c c' d t hl h hd
  obtain ⟨quote,rest,n,hr,hq,hu,rfl⟩ := literal_eq_ok.mp hl
  obtain ⟨u,hc,hc'⟩ := h.same
  have hn := length_le_of_unquote? hu
  have hlen : v.length + (n+1) ≤ c.rest.length := by
    rw [Cursor.rest_advance,List.length_drop,hr,List.length_cons] at hd
    rw [hr,List.length_cons]
    omega
  rcases u with _ | ⟨x,u⟩
  · rw [hc,List.nil_append] at hlen
    omega
  · obtain ⟨rfl,rfl⟩ := List.cons.inj (hr.symm.trans hc)
    have hnu : n ≤ u.length := by
      rw [hc,List.length_append,List.length_cons] at hlen
      omega
    have htake : (u ++ w) = (u ++ v).take n ++ (u.drop n ++ w) := by
      rw [List.take_append_of_le_length hnu,← List.append_assoc,List.take_append_drop]
    refine ⟨_,literal_eq_ok.mpr ⟨quote,u ++ w,n,hc',hq,?_,rfl⟩,h.advance hlen⟩
    rw [htake]
    exact unquote?_take (ne_backslash_of_isQuote hq) hu _

theorem lockstep_twins {x : Char} (hx : IsStop x) (hb : isBlank x = false) (hv : Begins x v)
    (hw : Begins x w) : Lockstep (· + k) (fun d => v.length ≤ d.rest.length) (Twins v w k) where
  guard _ _ h hd := Nat.le_trans hd h.length_le
  offset _ _ h _ := h.offset
  atName _ _ h _ := h.any_head hv hw hx.start
  atQuote _ _ h _ := h.any_head hv hw hx.quote
  heeds token ht := heeds_twins hv hw (hx.ahead token ht)
  skipBlank _ _ h := h.skipWhile hv hw hb
  expect _ _ _ _ _ h _ := h.expect_within
  name _ _ _ _ _ h := h.name hv hw hx
  literal _ _ _ _ h hl := carries_literal hl h

section Closed
variable (hv : Closed v) (hw : Closed w)
include hv hw

theorem lockstep_closed : Lockstep (· + k) (fun d => v.length ≤ d.rest.length) (Twins v w k) :=
  lockstep_twins isStop_brace (by decide) hv hw

theorem carries_argument (levels : Nat) : Carries v w k (Arg.relocate (· + k)) (argument levels) :=
  follows_argument (lockstep_closed hv hw) levels

theorem carries_array (levels : Nat) :
    Carries v w k (List.map (Arg.relocate (· + k))) (array levels) :=
  follows_array (lockstep_closed hv hw) levels

theorem carries_condition (levels : Nat) :
    Carries v w k (Condition.relocate (· + k)) (condition levels) :=
  follows_condition (lockstep_closed hv hw) (heeds_twins hv hw (by decide))
    (heeds_twins hv hw (by decide)) levels

end Closed

end Stencil.Grammar

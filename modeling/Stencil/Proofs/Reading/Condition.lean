import Stencil.Grammar.Condition
import Stencil.Proofs.Reading.Expression

/-! # When conditions are read

The words of a condition are looked at in a fixed order. `comparison?` and `connective?`
put the alternatives of one place together in a table, so that a leaf goes on in one of
three ways and a condition in one of two.
-/
namespace Stencil.Grammar
variable {inner : Reading Condition} {argument : Reading Arg} {array : Reading (List Arg)}
variable {c d : Cursor}

/-- Whether `not` stands at the cursor, and the cursor behind it. -/
def afterNot (c : Cursor) : Bool × Cursor :=
  ((keyword? "not".toList c).isSome,(keyword? "not".toList c).getD c)

/-- What the first word of the table that stands at the cursor means, and the cursor behind
it. -/
def word? (table : List (Text × α)) (c : Cursor) : Option (α × Cursor) :=
  table.findSome? fun entry => (keyword? entry.1 c).map (entry.2,·)

def comparison? : Cursor → Option (Comparison × Cursor) :=
  word? [("eq".toList,.eq),("like".toList,.like)]

def connective? : Cursor → Option (Connective × Cursor) :=
  word? [("or".toList,.or),("and".toList,.and)]

theorem word?_nil (c : Cursor) : word? ([] : List (Text × α)) c = none := rfl

theorem word?_cons (entry : Text × α) (table : List (Text × α)) (c : Cursor) :
    word? (entry :: table) c = ((keyword? entry.1 c).map (entry.2,·)).or (word? table c) := by
  simp only [word?,List.findSome?_cons]
  cases keyword? entry.1 c <;> rfl

theorem word?_eq_none {table : List (Text × α)} :
    word? table c = none ↔ ∀ entry ∈ table, ¬ entry.1 <+: c.rest := by
  simp only [word?,List.findSome?_eq_none_iff,Option.map_eq_none_iff,keyword?_eq_none]

/-- The words before the one that is found do not stand at the cursor. -/
theorem word?_eq_some {table : List (Text × α)} {x : α} (h : word? table c = some (x,d)) :
    ∃ before word after, table = before ++ (word,x) :: after ∧
      (∀ entry ∈ before, ¬ entry.1 <+: c.rest) ∧ keyword? word c = some d := by
  obtain ⟨before,⟨word,y⟩,after,rfl,hk,hb⟩ := List.findSome?_eq_some_iff.mp h
  obtain ⟨e,hword,he⟩ := Option.map_eq_some_iff.mp hk
  obtain ⟨rfl,rfl⟩ := Prod.mk.inj he
  refine ⟨before,word,after,rfl,fun entry hm => ?_,hword⟩
  have hnone := hb entry hm
  rwa [Option.map_eq_none_iff,keyword?_eq_none] at hnone

theorem word?_append {before after : List (Text × α)} {word : Text} {x : α}
    (hb : ∀ entry ∈ before, ¬ entry.1 <+: c.rest) (hk : keyword? word c = some d) :
    word? (before ++ (word,x) :: after) c = some (x,d) := by
  refine List.findSome?_eq_some_iff.mpr ⟨before,(word,x),after,rfl,?_,fun entry hm => ?_⟩
  · rw [hk,Option.map_some]
  · rw [Option.map_eq_none_iff,keyword?_eq_none]
    exact hb entry hm

/-- How a leaf goes on after its first argument and `not`. -/
def leafTail (argument : Reading Arg) (array : Reading (List Arg)) (left : Arg) (negated : Bool) :
    Reading Condition := fun c =>
  match comparison? c with
  | some (comparison,c) => do
    let (right,c) ← argument c
    return (.compare comparison negated left right,c)
  | none =>
    match keyword? "in".toList c with
    | some c => do
      let (items,c) ← array c
      return (.among negated left items,c)
    | none => if negated then .error (c.fault .loneNot 1) else .ok (.holds left,c)

theorem leafWith_eq : leafWith argument array c = (do
    let (left,c) ← argument c
    leafTail argument array left (afterNot c.skipBlank).1 (afterNot c.skipBlank).2) := by
  simp only [leafWith]
  refine bind_congr fun p => ?_
  simp only [leafTail,afterNot,comparison?,word?_cons,word?_nil,Option.or_none]
  cases heq : keyword? "eq".toList ((keyword? "not".toList p.2.skipBlank).getD p.2.skipBlank) with
  | some c₁ => rfl
  | none =>
    cases hlike : keyword? "like".toList ((keyword? "not".toList p.2.skipBlank).getD p.2.skipBlank) with
    | some c₁ => rfl
    | none =>
      generalize keyword? "in".toList _ = after
      cases after <;> rfl

theorem leafTail_eq_ok {left : Arg} {negated : Bool} {x : Condition} :
    leafTail argument array left negated c = .ok (x,d) ↔
      (∃ comparison c₁ right, comparison? c = some (comparison,c₁) ∧ argument c₁ = .ok (right,d) ∧
        .compare comparison negated left right = x) ∨
      (comparison? c = none ∧ ∃ c₁ items, keyword? "in".toList c = some c₁ ∧
        array c₁ = .ok (items,d) ∧ .among negated left items = x) ∨
      (comparison? c = none ∧ keyword? "in".toList c = none ∧ negated = false ∧
        .holds left = x ∧ c = d) := by
  simp only [leafTail]
  cases hc : comparison? c with
  | some p =>
    rcases p with ⟨comparison,c₁⟩
    simp [bind_eq_ok,pure,Except.pure,and_assoc]
  | none =>
    generalize keyword? "in".toList c = after
    cases after with
    | some c₁ => simp [bind_eq_ok,pure,Except.pure]
    | none => cases negated <;> simp

theorem leafWith_eq_ok {x : Condition} : leafWith argument array c = .ok (x,d) ↔
    ∃ left c₁, argument c = .ok (left,c₁) ∧
      leafTail argument array left (afterNot c₁.skipBlank).1 (afterNot c₁.skipBlank).2 = .ok (x,d) := by
  rw [leafWith_eq,bind_eq_ok]
  simp only [Prod.exists]

theorem operandWith_eq_ok {x : Condition} : operandWith inner argument array c = .ok (x,d) ↔
    (c.rest.head? = some '(' ∧ ∃ condition c₁, inner (c.advance 1).skipBlank = .ok (condition,c₁) ∧
      expect .symbol [')'] c₁.skipBlank = .ok d ∧ .brackets condition = x) ∨
    (c.rest.head? ≠ some '(' ∧ (atQuote c || atName c) = true ∧
      leafWith argument array c = .ok (x,d)) := by
  unfold operandWith
  split
  · next h => simp [h,bind_eq_ok,pure,Except.pure]
  · next h =>
    split
    · next hl => simp only [h,hl,not_false_eq_true,true_and,false_and,false_or,ne_eq]
    · next hl => simp only [h,hl,reduceCtorEq,false_and,and_false,or_false,Bool.false_eq_true]

/-- How a condition goes on after its first operand. -/
def conditionTail (inner : Reading Condition) (left : Condition) : Reading Condition := fun c =>
  match connective? c with
  | some (connective,c) => do
    let (right,c) ← inner c
    return (.join connective left right,c)
  | none => .ok (left,c)

theorem conditionWith_eq : conditionWith inner argument array c = (do
    let (left,c) ← operandWith inner argument array c.skipBlank
    conditionTail inner left c.skipBlank) := by
  simp only [conditionWith]
  refine bind_congr fun p => ?_
  simp only [conditionTail,connective?,word?_cons,word?_nil,Option.or_none]
  cases hor : keyword? "or".toList p.2.skipBlank with
  | some c₁ => rfl
  | none =>
    cases hand : keyword? "and".toList p.2.skipBlank with
    | some c₁ => rfl
    | none => rfl

theorem conditionTail_eq_ok {left x : Condition} : conditionTail inner left c = .ok (x,d) ↔
    (∃ connective c₁ right, connective? c = some (connective,c₁) ∧ inner c₁ = .ok (right,d) ∧
      .join connective left right = x) ∨
    (connective? c = none ∧ left = x ∧ c = d) := by
  simp only [conditionTail]
  cases hc : connective? c with
  | some p =>
    rcases p with ⟨connective,c₁⟩
    simp [bind_eq_ok,pure,Except.pure,and_assoc]
  | none => simp

theorem conditionWith_eq_ok {x : Condition} : conditionWith inner argument array c = .ok (x,d) ↔
    ∃ left c₁, operandWith inner argument array c.skipBlank = .ok (left,c₁) ∧
      conditionTail inner left c₁.skipBlank = .ok (x,d) := by
  rw [conditionWith_eq,bind_eq_ok]
  simp only [Prod.exists]

/-- A condition may be looked for before or after the blanks in front of it. -/
theorem condition_of_skipBlank {levels : Nat} {c d : Cursor} {x : Condition}
    (h : condition levels c = .ok (x,d)) : condition levels c.skipBlank = .ok (x,d) := by
  cases levels with
  | zero => cases h
  | succ levels =>
    rw [condition,conditionWith_eq] at h ⊢
    rwa [Cursor.skipBlank_skipBlank]

theorem reaches_of_keyword? {word : Text} (h : keyword? word c = some d) : c.Reaches d := by
  obtain ⟨_,rfl⟩ := keyword?_eq_some.mp h
  exact (Cursor.reaches_advance _ c).trans (Cursor.reaches_skipBlank _)

theorem reaches_afterNot (c : Cursor) : c.Reaches (afterNot c).2 := by
  cases h : keyword? "not".toList c with
  | none => simpa only [afterNot,h,Option.getD_none] using Cursor.Reaches.refl c
  | some d => simpa only [afterNot,h,Option.getD_some] using reaches_of_keyword? h

theorem reaches_of_word? {table : List (Text × α)} {x : α} (h : word? table c = some (x,d)) :
    c.Reaches d := by
  obtain ⟨_,_,_,_,_,hk⟩ := word?_eq_some h
  exact reaches_of_keyword? hk

theorem moves_leafTail (ha : Moves argument) (hi : Moves array) (left : Arg) (negated : Bool) :
    Moves (leafTail argument array left negated) := by
  intro c x d h
  rcases leafTail_eq_ok.mp h with ⟨_,_,_,hk,hr,_⟩ | ⟨_,_,_,hk,hr,_⟩ | ⟨_,_,_,_,rfl⟩
  · exact (reaches_of_word? hk).trans (ha hr)
  · exact (reaches_of_keyword? hk).trans (hi hr)
  · exact Cursor.Reaches.refl c

theorem consumes_leafWith (ha : Consumes argument) (hi : Moves array) :
    Consumes (leafWith argument array) := by
  intro c x d h
  obtain ⟨left,c₁,hl,ht⟩ := leafWith_eq_ok.mp h
  have hd := (Cursor.reaches_skipBlank c₁).trans <|
    (reaches_afterNot _).trans (moves_leafTail ha.moves hi _ _ ht)
  have hle := hd.length_le
  have hlt := (ha hl).2
  exact ⟨(ha hl).1.trans hd,by omega⟩

theorem consumes_operandWith (hm : Moves inner) (ha : Consumes argument) (hi : Moves array) :
    Consumes (operandWith inner argument array) := by
  intro c x d h
  rcases operandWith_eq_ok.mp h with ⟨hc,condition,c₁,hx,he,_⟩ | ⟨_,_,hl⟩
  · have hne : c.rest ≠ [] := by
      intro hne
      simp [hne] at hc
    have hd : (c.advance 1).Reaches d := (Cursor.reaches_skipBlank _).trans <|
      (hm hx).trans <| (Cursor.reaches_skipBlank _).trans (reaches_of_expect he)
    have hlt := length_advance_lt Nat.one_pos hne
    have hle := hd.length_le
    exact ⟨(Cursor.reaches_advance 1 c).trans hd,by omega⟩
  · exact consumes_leafWith ha hi hl

theorem moves_conditionTail (hm : Moves inner) (left : Condition) :
    Moves (conditionTail inner left) := by
  intro c x d h
  rcases conditionTail_eq_ok.mp h with ⟨_,_,_,hk,hr,_⟩ | ⟨_,_,rfl⟩
  · exact (reaches_of_word? hk).trans (hm hr)
  · exact Cursor.Reaches.refl c

theorem consumes_conditionWith (hm : Moves inner) (ha : Consumes argument) (hi : Moves array) :
    Consumes (conditionWith inner argument array) := by
  intro c x d h
  obtain ⟨left,c₁,ho,ht⟩ := conditionWith_eq_ok.mp h
  have hd : c₁.Reaches d := (Cursor.reaches_skipBlank c₁).trans (moves_conditionTail hm left ht)
  have hstart := Cursor.length_skipBlank_le c
  have hle := hd.length_le
  have hlt := (consumes_operandWith hm ha hi ho).2
  exact ⟨(Cursor.reaches_skipBlank c).trans ((consumes_operandWith hm ha hi ho).1.trans hd),by omega⟩

theorem consumes_condition (levels : Nat) : Consumes (condition levels) := by
  induction levels with
  | zero => exact consumes_tooDeep
  | succ levels ih =>
    exact consumes_conditionWith ih.moves (consumes_argument levels) (consumes_array levels).moves

theorem moves_condition (levels : Nat) : Moves (condition levels) := (consumes_condition levels).moves

end Stencil.Grammar

import Stencil.Proofs.Reading.Condition
import Stencil.Proofs.Reading.Printed

/-! # Reading printed conditions

A printed condition reads back before the end of the text, a closing bracket or closing
braces. Its words are looked for in a fixed order at the places where a word may stand, so
what has to be known about a word that is there is that none before it in that order fits.
-/
namespace Stencil.Grammar
variable {levels : Nat} {c : Cursor} {s : Text}

theorem not_prefix_of_head_ne {x y : Char} {u : Text} (h : x ≠ y) : ¬ (x :: u) <+: (y :: s) :=
  fun hp => h (List.cons_prefix_cons.mp hp).1

theorem exists_keyword {word : Text} (hc : c.rest = word ++ ' ' :: s) :
    ∃ d, keyword? word c = some d ∧ d.rest = s.dropWhile isBlank := by
  refine ⟨_,keyword?_eq_some.mpr ⟨⟨_,hc.symm⟩,rfl⟩,?_⟩
  rw [Cursor.rest_skipBlank,Cursor.rest_advance_of_append hc,List.dropWhile_cons,if_pos isBlank_space]

theorem afterNot_eq_self (h : ¬ "not".toList <+: c.rest) : afterNot c = (false,c) := by
  rw [afterNot,keyword?_eq_none.mpr h]
  rfl

/-- The words that a comparison or membership may begin with. -/
inductive IsOperator : Text → Prop where
  | compare (comparison : Comparison) : IsOperator comparison.word
  | among : IsOperator "in".toList

theorem IsOperator.exists_head {word : Text} (h : IsOperator word) :
    ∃ x r, word = x :: r ∧ isNameStart x = true ∧ x ≠ 'n' := by
  rcases h with (_ | _) | _
  · exact ⟨'e',['q'],rfl,by decide,by decide⟩
  · exact ⟨'l',['i','k','e'],rfl,by decide,by decide⟩
  · exact ⟨'i',['n'],rfl,by decide,by decide⟩

theorem exists_afterNot {word : Text} (negated : Bool) (hw : IsOperator word)
    (hc : c.rest = operatorText negated word ++ s) :
    ∃ d, afterNot c = (negated,d) ∧ d.rest = word ++ s := by
  obtain ⟨x,r,rfl,hx,hn⟩ := hw.exists_head
  cases negated with
  | false =>
    have hnot : ¬ "not".toList <+: c.rest := by
      rw [hc]
      exact not_prefix_of_head_ne hn.symm
    exact ⟨c,afterNot_eq_self hnot,hc⟩
  | true =>
    have hrest : c.rest = "not".toList ++ ' ' :: (x :: r ++ s) := hc
    obtain ⟨d,hd,hds⟩ := exists_keyword hrest
    refine ⟨d,by rw [afterNot,hd]; rfl,hds.trans ?_⟩
    exact dropWhile_eq_self (isBlank_of_isNameChar (isNameChar_of_isNameStart hx))

/-- A word that is there is found if no word before it in the table is there too. -/
theorem exists_word {α : Type} (before : List (Text × α)) {after : List (Text × α)} {word : Text} {x : α}
    (hc : c.rest = word ++ ' ' :: s) (hb : ∀ entry ∈ before, ¬ entry.1 <+: word ++ ' ' :: s) :
    ∃ d, word? (before ++ (word,x) :: after) c = some (x,d) ∧ d.rest = s.dropWhile isBlank := by
  obtain ⟨d,hd,hds⟩ := exists_keyword hc
  rw [← hc] at hb
  exact ⟨d,word?_append hb hd,hds⟩

theorem exists_comparison (comparison : Comparison) (hc : c.rest = comparison.word ++ ' ' :: s) :
    ∃ d, comparison? c = some (comparison,d) ∧ d.rest = s.dropWhile isBlank := by
  cases comparison with
  | eq => exact exists_word [] hc (by simp)
  | like =>
    refine exists_word [("eq".toList,Comparison.eq)] hc fun entry hm => ?_
    rw [List.mem_singleton.mp hm]
    exact not_prefix_of_head_ne (by decide)

theorem comparison?_eq_none (heq : ¬ "eq".toList <+: c.rest) (hlike : ¬ "like".toList <+: c.rest) :
    comparison? c = none :=
  word?_eq_none.mpr (List.forall_mem_cons.mpr ⟨heq,List.forall_mem_singleton.mpr hlike⟩)

theorem exists_connective (connective : Connective) (hc : c.rest = connective.word ++ ' ' :: s) :
    ∃ d, connective? c = some (connective,d) ∧ d.rest = s.dropWhile isBlank := by
  cases connective with
  | or => exact exists_word [] hc (by simp)
  | and =>
    refine exists_word [("or".toList,Connective.or)] hc fun entry hm => ?_
    rw [List.mem_singleton.mp hm]
    exact not_prefix_of_head_ne (by decide)

theorem connective?_eq_none (hor : ¬ "or".toList <+: c.rest) (hand : ¬ "and".toList <+: c.rest) :
    connective? c = none :=
  word?_eq_none.mpr (List.forall_mem_cons.mpr ⟨hor,List.forall_mem_singleton.mpr hand⟩)

/-- A condition ends before `s`. -/
def EndsCondition (s : Text) : Prop := ∀ x ∈ s.head?, x = ')' ∨ x = '\x7d'

/-- No leaf goes on with `s`: neither its argument nor one of its words. -/
structure EndsLeaf (s : Text) : Prop where
  arg : EndsArg s
  words : ∀ word ∈ ["not".toList,"eq".toList,"like".toList,"in".toList],
    ¬ word <+: s.dropWhile isBlank

theorem EndsCondition.dropWhile (hs : EndsCondition s) : s.dropWhile isBlank = s := by
  cases s with
  | nil => rfl
  | cons x s => rcases hs x rfl with rfl | rfl <;> exact dropWhile_eq_self (by decide)

/-- No word stands where a condition ends. -/
theorem EndsCondition.no_word (hs : EndsCondition s) {x : Char} {u : Text}
    (hx : isNameStart x = true) : ¬ (x :: u) <+: s := by
  intro hp
  cases s with
  | nil => simp at hp
  | cons y s =>
    obtain ⟨rfl,_⟩ := List.cons_prefix_cons.mp hp
    rcases hs x rfl with rfl | rfl <;> exact absurd hx (by decide)

theorem EndsCondition.endsLeaf (hs : EndsCondition s) : EndsLeaf s where
  arg := by
    cases s with
    | nil => exact endsArg_nil
    | cons x s => rcases hs x rfl with rfl | rfl <;> exact endsArg_cons (by decide)
  words word hword := by
    rw [hs.dropWhile]
    simp only [List.mem_cons,List.not_mem_nil,or_false] at hword
    rcases hword with rfl | rfl | rfl | rfl <;> exact hs.no_word (by decide)

theorem endsLeaf_connective (connective : Connective) :
    EndsLeaf (' ' :: (connective.word ++ ' ' :: s)) where
  arg := by cases connective <;> exact endsArg_space (by decide)
  words word hword := by
    have hdrop : (' ' :: (connective.word ++ ' ' :: s)).dropWhile isBlank =
        connective.word ++ ' ' :: s := by
      rw [List.dropWhile_cons,if_pos isBlank_space]
      cases connective <;> exact dropWhile_eq_self (by decide)
    rw [hdrop]
    simp only [List.mem_cons,List.not_mem_nil,or_false] at hword
    rcases hword with rfl | rfl | rfl | rfl <;> cases connective <;>
      exact not_prefix_of_head_ne (by decide)

theorem skipBlank_of_dropWhile (h : c.rest = s.dropWhile isBlank) :
    c.skipBlank.rest = s.dropWhile isBlank := by
  rw [Cursor.rest_skipBlank,h,dropWhile_idem]

theorem endsArg_operator {word : Text} (negated : Bool) (hw : IsOperator word) :
    EndsArg (' ' :: (operatorText negated word ++ s)) := by
  obtain ⟨x,r,rfl,hx,_⟩ := hw.exists_head
  cases negated with
  | false => exact endsArg_space hx
  | true => exact endsArg_space (by decide)

theorem dropWhile_operator {word : Text} (negated : Bool) (hw : IsOperator word) :
    (' ' :: (operatorText negated word ++ s)).dropWhile isBlank = operatorText negated word ++ s := by
  obtain ⟨x,r,rfl,hx,_⟩ := hw.exists_head
  rw [List.dropWhile_cons,if_pos isBlank_space]
  cases negated with
  | false => exact dropWhile_eq_self (isBlank_of_isNameChar (isNameChar_of_isNameStart hx))
  | true => exact dropWhile_eq_self (by decide)

/-- The first argument of a leaf and the operator behind it. -/
theorem exists_leaf_operator {left : Arg} {word : Text} (negated : Bool) (hw : left.WellFormed)
    (hn : left.nesting ≤ levels) (hword : IsOperator word)
    (hc : c.rest = left.print ++ ' ' :: (operatorText negated word ++ s)) :
    ∃ y d e, argument levels c = .ok (y,d) ∧ y.relocate nowhere = left.relocate nowhere ∧
      afterNot d.skipBlank = (negated,e) ∧ e.rest = word ++ s := by
  obtain ⟨y,d,hy,he,hds⟩ := exists_argument hw hn (endsArg_operator negated hword) hc
  have hskip : d.skipBlank.rest = operatorText negated word ++ s := by
    rw [skipBlank_of_dropWhile hds,dropWhile_operator negated hword]
  obtain ⟨e,hnot,hes⟩ := exists_afterNot negated hword hskip
  exact ⟨y,d,e,hy,he,hnot,hes⟩

theorem exists_leaf_holds {arg : Arg} (hw : arg.WellFormed) (hn : arg.nesting ≤ levels)
    (hs : EndsLeaf s) (hc : c.rest = arg.print ++ s) :
    ∃ y d, leafWith (argument levels) (array levels) c = .ok (.holds y,d) ∧
      y.relocate nowhere = arg.relocate nowhere ∧ d.rest = s.dropWhile isBlank := by
  obtain ⟨y,d,hy,he,hds⟩ := exists_argument hw hn hs.arg hc
  have hskip := skipBlank_of_dropWhile hds
  have hwords : ∀ word ∈ ["not".toList,"eq".toList,"like".toList,"in".toList],
      ¬ word <+: d.skipBlank.rest := by
    rw [hskip]
    exact hs.words
  have hnot : afterNot d.skipBlank = (false,d.skipBlank) :=
    afterNot_eq_self (hwords _ (by simp))
  refine ⟨y,d.skipBlank,leafWith_eq_ok.mpr ⟨y,d,hy,?_⟩,he,hskip⟩
  rw [hnot]
  refine leafTail_eq_ok.mpr (Or.inr (Or.inr ⟨?_,?_,rfl,rfl,rfl⟩))
  · exact comparison?_eq_none (hwords _ (by simp)) (hwords _ (by simp))
  · exact keyword?_eq_none.mpr (hwords _ (by simp))

theorem exists_leaf_compare (comparison : Comparison) (negated : Bool) {left right : Arg}
    (hwl : left.WellFormed) (hwr : right.WellFormed) (hn : max left.nesting right.nesting ≤ levels)
    (hs : EndsLeaf s)
    (hc : c.rest = left.print ++ ' ' :: (operatorText negated comparison.word ++ ' ' :: (right.print ++ s))) :
    ∃ y z d, leafWith (argument levels) (array levels) c = .ok (.compare comparison negated y z,d) ∧
      y.relocate nowhere = left.relocate nowhere ∧ z.relocate nowhere = right.relocate nowhere ∧
      d.rest = s.dropWhile isBlank := by
  obtain ⟨hnl,hnr⟩ := Nat.max_le.mp hn
  obtain ⟨y,d₁,d₂,hy,he,hnot,hds₂⟩ :=
    exists_leaf_operator negated hwl hnl (.compare comparison) hc
  obtain ⟨d₃,hd₃,hds₃⟩ := exists_comparison comparison hds₂
  have hright : d₃.rest = right.print ++ s := by
    obtain ⟨x,r,hx,hstart⟩ := exists_print_head hwr s
    rw [hds₃,hx,dropWhile_eq_self (isBlank_of_isArgStart hstart)]
  obtain ⟨z,d,hz,hez,hds⟩ := exists_argument hwr hnr hs.arg hright
  refine ⟨y,z,d,leafWith_eq_ok.mpr ⟨y,d₁,hy,?_⟩,he,hez,hds⟩
  rw [hnot]
  exact leafTail_eq_ok.mpr (Or.inl ⟨comparison,d₃,z,hd₃,hz,rfl⟩)

theorem exists_leaf_among (negated : Bool) {arg : Arg} {items : List Arg} (hwa : arg.WellFormed)
    (hwi : ItemsWellFormed items) (hn : max arg.nesting (itemsNesting items) ≤ levels)
    (hc : c.rest = arg.print ++ ' ' :: (operatorText negated "in".toList ++ ' ' :: (arrayPrint items ++ s))) :
    ∃ y ys d, leafWith (argument levels) (array levels) c = .ok (.among negated y ys,d) ∧
      y.relocate nowhere = arg.relocate nowhere ∧
      ys.map (Arg.relocate nowhere) = items.map (Arg.relocate nowhere) ∧ d.rest = s := by
  obtain ⟨hna,hni⟩ := Nat.max_le.mp hn
  obtain ⟨y,d₁,d₂,hy,he,hnot,hds₂⟩ := exists_leaf_operator negated hwa hna .among hc
  have hnone : comparison? d₂ = none := by
    refine comparison?_eq_none ?_ ?_ <;> rw [hds₂] <;> exact not_prefix_of_head_ne (by decide)
  obtain ⟨d₃,hd₃,hds₃⟩ := exists_keyword hds₂
  have harray : d₃.rest = arrayPrint items ++ s := hds₃.trans (dropWhile_eq_self (by decide))
  obtain ⟨ys,d,hys,hes,hds⟩ := exists_array hwi hni harray
  refine ⟨y,ys,d,leafWith_eq_ok.mpr ⟨y,d₁,hy,?_⟩,he,hes,hds⟩
  rw [hnot]
  exact leafTail_eq_ok.mpr (Or.inr (Or.inl ⟨hnone,d₃,ys,hd₃,hys,rfl⟩))

/-- A printed condition begins with a bracket or an argument. -/
theorem exists_conditionPrint_head {x : Condition} (hw : x.WellFormed) (s : Text) :
    ∃ y r, x.print ++ s = y :: r ∧ (y = '(' ∨ isArgStart y = true) := by
  induction x generalizing s with
  | holds arg =>
    obtain ⟨y,r,he,hy⟩ := exists_print_head hw s
    exact ⟨y,r,he,Or.inr hy⟩
  | brackets inner => exact ⟨'(',_,rfl,Or.inl rfl⟩
  | join connective left right ihl =>
    obtain ⟨y,r,he,hy⟩ := ihl hw.2.1 (' ' :: (connective.word ++ ' ' :: right.print) ++ s)
    exact ⟨y,r,by rw [Condition.print,List.append_assoc,he],hy⟩
  | compare comparison negated left right =>
    obtain ⟨y,r,he,hy⟩ := exists_print_head hw.1
      (' ' :: (operatorText negated comparison.word ++ ' ' :: right.print) ++ s)
    exact ⟨y,r,by rw [Condition.print,List.append_assoc,he],Or.inr hy⟩
  | among negated arg items =>
    obtain ⟨y,r,he,hy⟩ := exists_print_head hw.1
      (' ' :: (operatorText negated "in".toList ++ ' ' :: arrayPrint items) ++ s)
    exact ⟨y,r,by rw [Condition.print,List.append_assoc,he],Or.inr hy⟩

theorem isBlank_of_conditionStart {y : Char} (h : y = '(' ∨ isArgStart y = true) :
    isBlank y = false := by
  rcases h with rfl | h
  · decide
  · exact isBlank_of_isArgStart h

theorem dropWhile_conditionPrint {x : Condition} (hw : x.WellFormed) (s : Text) :
    (x.print ++ s).dropWhile isBlank = x.print ++ s := by
  obtain ⟨y,r,he,hy⟩ := exists_conditionPrint_head hw s
  rw [he,dropWhile_eq_self (isBlank_of_conditionStart hy)]

theorem skipBlank_of_conditionPrint {x : Condition} (hw : x.WellFormed)
    (hc : c.rest = x.print ++ s) : c.skipBlank = c := by
  obtain ⟨y,r,he,hy⟩ := exists_conditionPrint_head hw s
  exact Cursor.skipBlank_eq_self (hc.trans he) (isBlank_of_conditionStart hy)

/-- What a leaf begins with sends the reading of an operand to the leaf. -/
theorem operandWith_of_leafWith {inner : Reading Condition} {arg : Arg} {x : Condition} {d : Cursor}
    (hw : arg.WellFormed) (hc : c.rest = arg.print ++ s)
    (h : leafWith (argument levels) (array levels) c = .ok (x,d)) :
    operandWith inner (argument levels) (array levels) c = .ok (x,d) := by
  obtain ⟨y,r,he,hy⟩ := exists_print_head hw s
  have hhead : c.rest.head? = some y := by rw [hc,he,List.head?_cons]
  refine operandWith_eq_ok.mpr (Or.inr ⟨?_,?_,h⟩)
  · rw [hhead]
    rintro ⟨⟩
    exact absurd hy (by decide)
  · simpa [atQuote,atName,hhead,isArgStart] using hy

theorem exists_operandWith {x : Condition} {inner : Reading Condition}
    (hinner : ∀ ⦃x : Condition⦄ ⦃c : Cursor⦄ ⦃s : Text⦄, x.WellFormed → x.nesting ≤ levels →
      EndsCondition s → c.rest = x.print ++ s →
      ∃ y d, inner c = .ok (y,d) ∧ y.relocate nowhere = x.relocate nowhere ∧ d.rest = s)
    (hw : x.WellFormed) (hj : ¬x.IsJoin) (hn : x.nesting ≤ levels + 1) (hs : EndsLeaf s)
    (hc : c.rest = x.print ++ s) :
    ∃ y d, operandWith inner (argument levels) (array levels) c = .ok (y,d) ∧
      y.relocate nowhere = x.relocate nowhere ∧ d.skipBlank.rest = s.dropWhile isBlank := by
  cases x with
  | holds arg =>
    obtain ⟨y,d,hy,he,hds⟩ := exists_leaf_holds hw (Nat.le_of_succ_le_succ hn) hs hc
    exact ⟨_,d,operandWith_of_leafWith hw hc hy,by rw [Condition.relocate,Condition.relocate,he],
      skipBlank_of_dropWhile hds⟩
  | brackets inside =>
    have hrest : (c.advance 1).rest = inside.print ++ ')' :: s := by
      rw [Condition.print,List.cons_append,List.append_assoc,List.singleton_append] at hc
      exact Cursor.rest_advance_one hc
    have hend : EndsCondition (')' :: s) := by
      rintro y ⟨⟩
      exact Or.inl rfl
    have hwi : inside.WellFormed := hw
    obtain ⟨y,d₁,hy,he,hds₁⟩ := hinner hwi (Nat.le_of_succ_le_succ hn) hend hrest
    obtain ⟨d,hd,hds⟩ := exists_expect .symbol [')'] hds₁
    refine ⟨_,d,operandWith_eq_ok.mpr (Or.inl ⟨?_,y,d₁,?_,?_,rfl⟩),?_,?_⟩
    · rw [hc]
      rfl
    · rw [skipBlank_of_conditionPrint hwi hrest,hy]
    · rw [Cursor.skipBlank_eq_self hds₁ (by decide),hd]
    · rw [Condition.relocate,Condition.relocate,he]
    · rw [Cursor.rest_skipBlank,hds]
  | join connective left right => exact absurd trivial hj
  | compare comparison negated left right =>
    have hrest : c.rest = left.print ++
        ' ' :: (operatorText negated comparison.word ++ ' ' :: (right.print ++ s)) := by
      rw [hc,Condition.print,List.append_assoc,List.cons_append,List.append_assoc,List.cons_append]
    obtain ⟨y,z,d,hy,he,hez,hds⟩ := exists_leaf_compare comparison negated hw.1 hw.2
      (Nat.le_of_succ_le_succ hn) hs hrest
    exact ⟨_,d,operandWith_of_leafWith hw.1 hrest hy,
      by rw [Condition.relocate,Condition.relocate,he,hez],skipBlank_of_dropWhile hds⟩
  | among negated arg items =>
    have hrest : c.rest = arg.print ++
        ' ' :: (operatorText negated "in".toList ++ ' ' :: (arrayPrint items ++ s)) := by
      rw [hc,Condition.print,List.append_assoc,List.cons_append,List.append_assoc,List.cons_append]
    obtain ⟨y,ys,d,hy,he,hes,hds⟩ := exists_leaf_among negated hw.1 hw.2
      (Nat.le_of_succ_le_succ hn) hrest
    exact ⟨_,d,operandWith_of_leafWith hw.1 hrest hy,
      by rw [Condition.relocate,Condition.relocate,he,hes],by rw [Cursor.rest_skipBlank,hds]⟩

/-- A printed condition reads back if there are levels enough. -/
theorem exists_condition {x : Condition} (hw : x.WellFormed) (hn : x.nesting ≤ levels)
    (hs : EndsCondition s) (hc : c.rest = x.print ++ s) : ∃ y d, condition levels c = .ok (y,d) ∧
      y.relocate nowhere = x.relocate nowhere ∧ d.rest = s := by
  induction levels generalizing x c s with
  | zero => exact absurd hn (Nat.not_le.mpr x.nesting_pos)
  | succ levels ih =>
    have hskip := skipBlank_of_conditionPrint hw hc
    by_cases hj : x.IsJoin
    · cases x with
      | join connective left right =>
        obtain ⟨hjl,hwl,hwr⟩ := hw
        obtain ⟨hnl,hnr⟩ := Nat.max_le.mp hn
        have hrest : c.rest = left.print ++ ' ' :: (connective.word ++ ' ' :: (right.print ++ s)) := by
          rw [hc,Condition.print,List.append_assoc,List.cons_append,List.append_assoc,List.cons_append]
        -- the right operand is a whole condition one level down, so chains need no brackets
        obtain ⟨y,d₁,hy,he,hds₁⟩ := exists_operandWith (fun _ _ _ => ih) hwl hjl hnl
          (endsLeaf_connective connective) hrest
        have hword : d₁.skipBlank.rest = connective.word ++ ' ' :: (right.print ++ s) := by
          rw [hds₁,List.dropWhile_cons,if_pos isBlank_space]
          cases connective <;> exact dropWhile_eq_self (by decide)
        obtain ⟨d₂,hd₂,hds₂⟩ := exists_connective connective hword
        rw [dropWhile_conditionPrint hwr] at hds₂
        obtain ⟨z,d,hz,hez,hds⟩ := ih hwr (Nat.le_of_succ_le_succ hnr) hs hds₂
        refine ⟨_,d,conditionWith_eq_ok.mpr ⟨y,d₁,by rw [hskip,hy],
          conditionTail_eq_ok.mpr (Or.inl ⟨connective,d₂,z,hd₂,hz,rfl⟩)⟩,?_,hds⟩
        rw [Condition.relocate,Condition.relocate,he,hez]
      | _ => exact absurd hj id
    · obtain ⟨y,d₁,hy,he,hds₁⟩ := exists_operandWith (fun _ _ _ => ih) hw hj hn hs.endsLeaf hc
      rw [hs.dropWhile] at hds₁
      have hnone : connective? d₁.skipBlank = none := by
        refine connective?_eq_none ?_ ?_ <;> rw [hds₁] <;> exact hs.no_word (by decide)
      exact ⟨y,_,conditionWith_eq_ok.mpr ⟨y,d₁,by rw [hskip,hy],
        conditionTail_eq_ok.mpr (Or.inr ⟨hnone,rfl,rfl⟩)⟩,he,hds₁⟩

end Stencil.Grammar

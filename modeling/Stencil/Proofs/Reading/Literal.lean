import Stencil.Proofs.Source.Tracking

/-! # Where a literal ends

A literal goes from its first quote up to the next quote of the same kind that no backslash protects.
Read from the left, a backslash protects the character after it, whatever that is. What the literal
stands for is its characters without the protecting backslashes.
-/
namespace Stencil.Grammar
variable {quote : Char} {s t w : Text}

/-- What is written between the quotes, and the text that it stands for. -/
inductive Inside (quote : Char) : Text → Text → Prop where
  | nil : Inside quote [] []
  | plain {x : Char} {w t : Text} (hquote : x ≠ quote) (hbackslash : x ≠ '\\') (h : Inside quote w t) :
    Inside quote (x :: w) (x :: t)
  | escape {w t : Text} (x : Char) (h : Inside quote w t) : Inside quote ('\\' :: x :: w) (x :: t)

/-- The literal goes up to its closing quote. -/
def Closes (quote : Char) (s : Text) : Prop := ∃ w t after, s = w ++ quote :: after ∧ Inside quote w t

/-- The text ends inside of the literal, perhaps behind a backslash that protects nothing. -/
def StaysOpen (quote : Char) (s : Text) : Prop := ∃ w t, Inside quote w t ∧ (s = w ∨ s = w ++ ['\\'])

theorem closes_or_staysOpen (quote : Char) (s : Text) : Closes quote s ∨ StaysOpen quote s := by
  fun_induction unquote? quote s with
  | case1 => exact Or.inr ⟨[],[],.nil,Or.inl rfl⟩
  | case2 rest => exact Or.inl ⟨[],[],rest,rfl,.nil⟩
  | case3 => exact Or.inr ⟨[],[],.nil,Or.inr rfl⟩
  | case4 x rest _ ih =>
    obtain ⟨w,t,after,rfl,h⟩ | ⟨w,t,h,rfl | rfl⟩ := ih
    · exact Or.inl ⟨_,_,after,rfl,.escape x h⟩
    · exact Or.inr ⟨_,_,.escape x h,Or.inl rfl⟩
    · exact Or.inr ⟨_,_,.escape x h,Or.inr rfl⟩
  | case5 x rest hquote hbackslash ih =>
    obtain ⟨w,t,after,rfl,h⟩ | ⟨w,t,h,rfl | rfl⟩ := ih
    · exact Or.inl ⟨_,_,after,rfl,.plain hquote hbackslash h⟩
    · exact Or.inr ⟨_,_,.plain hquote hbackslash h,Or.inl rfl⟩
    · exact Or.inr ⟨_,_,.plain hquote hbackslash h,Or.inr rfl⟩

/-- Whatever follows it, the inside of a literal is read as what it stands for. -/
theorem Inside.unquote?_append (h : Inside quote w t) (hquote : quote ≠ '\\') (s : Text) :
    unquote? quote (w ++ s) = (unquote? quote s).map fun (u,n) => (t ++ u,w.length + n) := by
  induction h with
  | nil => simp
  | plain hplain hbackslash _ ih =>
    rw [List.cons_append,unquote?_plain hplain hbackslash,ih,Option.map_map]
    refine Option.map_congr fun p _ => ?_
    simp only [Function.comp_apply,List.cons_append,List.length_cons]
    congr 1
    omega
  | escape x _ ih =>
    rw [List.cons_append,List.cons_append,unquote?_escape hquote,ih,Option.map_map]
    refine Option.map_congr fun p _ => ?_
    simp only [Function.comp_apply,List.cons_append,List.length_cons]
    congr 1
    omega

theorem Inside.unquote?_closed (h : Inside quote w t) (hquote : quote ≠ '\\') (s : Text) :
    unquote? quote (w ++ quote :: s) = some (t,w.length + 1) := by
  rw [h.unquote?_append hquote,unquote?_quote]
  simp

theorem StaysOpen.unquote? (h : StaysOpen quote s) (hquote : quote ≠ '\\') : unquote? quote s = none := by
  obtain ⟨w,t,h,rfl | rfl⟩ := h
  · have hread := h.unquote?_append hquote []
    rwa [List.append_nil] at hread
  · rw [h.unquote?_append hquote]
    simp [Grammar.unquote?,hquote.symm]

theorem unquote?_eq_some_iff (hquote : quote ≠ '\\') {n : Nat} : unquote? quote s = some (t,n) ↔
    ∃ w after, s = w ++ quote :: after ∧ Inside quote w t ∧ w.length + 1 = n := by
  constructor
  · intro h
    obtain ⟨w,u,after,rfl,hinside⟩ | hopen := closes_or_staysOpen quote s
    · rw [hinside.unquote?_closed hquote] at h
      obtain ⟨rfl,hn⟩ := Prod.mk.inj (Option.some.inj h)
      exact ⟨w,after,rfl,hinside,hn⟩
    · rw [hopen.unquote? hquote] at h
      cases h
  · rintro ⟨w,after,rfl,hinside,rfl⟩
    exact hinside.unquote?_closed hquote after

/-- What is read up to a closing quote depends on nothing behind that quote. -/
theorem unquote?_take (hquote : quote ≠ '\\') {n : Nat} (h : unquote? quote s = some (t,n)) (r : Text) :
    unquote? quote (s.take n ++ r) = some (t,n) := by
  obtain ⟨w,after,rfl,hinside,rfl⟩ := (unquote?_eq_some_iff hquote).mp h
  refine (unquote?_eq_some_iff hquote).mpr ⟨w,r,?_,hinside,rfl⟩
  rw [List.take_length_add_append]
  simp

/-- A quote or backslash inside a literal in these quotes. -/
def escapedIn (quote x : Char) : Text := if x = '\\' ∨ x = quote then ['\\',x] else [x]

def quoted (quote : Char) (t : Text) : Text := quote :: (t.flatMap (escapedIn quote) ++ [quote])

theorem inside_flatMap_escapedIn (quote : Char) (t : Text) :
    Inside quote (t.flatMap (escapedIn quote)) t := by
  induction t with
  | nil => exact .nil
  | cons x t ih =>
    rw [List.flatMap_cons,escapedIn]
    by_cases hx : x = '\\' ∨ x = quote
    · rw [if_pos hx]
      exact .escape x ih
    · rw [if_neg hx]
      exact .plain (fun h => hx (Or.inr h)) (fun h => hx (Or.inl h)) ih

theorem ne_backslash_of_isQuote (h : isQuote quote = true) : quote ≠ '\\' := by
  rintro rfl
  exact absurd h (by decide)

variable {before rest : Text} {c : Cursor}

theorem literal_of_closed (hquote : isQuote quote = true) (hc : c.rest = quote :: (w ++ quote :: s))
    (h : Inside quote w t) :
    literal c = .ok (t,c.advance (w.length + 1 + 1)) ∧ (c.advance (w.length + 1 + 1)).rest = s := by
  have hunquote := h.unquote?_closed (ne_backslash_of_isQuote hquote) s
  refine ⟨literal_eq_ok.mpr ⟨quote,_,_,hc,hquote,hunquote,rfl⟩,?_⟩
  rw [Cursor.rest_advance,hc,List.drop_succ_cons,List.drop_length_add_append]
  rfl

theorem literal_of_inside (hquote : isQuote quote = true)
    (hc : c.StandsBehind before (before ++ quote :: (w ++ quote :: s))) (h : Inside quote w t) :
    ∃ d, literal c = .ok (t,d) ∧ d.rest = s ∧
      d.StandsBehind (before ++ quote :: (w ++ [quote])) (before ++ quote :: (w ++ quote :: s)) := by
  have hrest : c.rest = quote :: (w ++ quote :: s) := List.append_cancel_left hc.whole.symm
  have htake : c.rest.take (w.length + 1 + 1) = quote :: (w ++ [quote]) := by
    rw [hrest,List.take_succ_cons,List.take_length_add_append]
    rfl
  have hd := hc.advance (w.length + 1 + 1)
  rw [htake] at hd
  obtain ⟨hread,hd'⟩ := literal_of_closed hquote hrest h
  exact ⟨_,hread,hd',hd⟩

theorem literal_of_staysOpen (hquote : isQuote quote = true) (hc : c.rest = quote :: rest)
    (h : StaysOpen quote rest) : literal c = .error (c.fault .openLiteral 1) := by
  simp only [literal,hc,if_pos hquote,h.unquote? (ne_backslash_of_isQuote hquote)]

/-- From a quote on, a literal is read just if there is a quote of the same kind that no backslash
protects; the cursor then stands behind the first such quote, and what is read is what stands before
it, without the protecting backslashes. Otherwise the refusal is about the opening quote. Any text is
read back from its quoted form, whatever follows. -/
theorem literal_ends_at_free_quote (hquote : isQuote quote = true)
    (hc : c.StandsBehind before (before ++ quote :: rest)) :
    let source := before ++ quote :: rest
    (∀ w t after, rest = w ++ quote :: after → Inside quote w t → ∃ d, literal c = .ok (t,d) ∧
      d.rest = after ∧ d.StandsBehind (before ++ quote :: (w ++ [quote])) source) ∧
    (StaysOpen quote rest → literal c = .error ⟨.openLiteral,before.length,1⟩) ∧
    (Closes quote rest ∨ StaysOpen quote rest) ∧
    (∀ ceiling limit, let refusal : Refusal := ⟨source,ceiling,limit,⟨.openLiteral,before.length,1⟩⟩
      refusal.message = "Unterminated text literal".toList ∧ refusal.position = c.position) ∧
    ∀ t after, c.rest = quoted quote t ++ after → ∃ d, literal c = .ok (t,d) ∧ d.rest = after ∧
      d.StandsBehind (before ++ quoted quote t) source := by
  intro source
  have hrest : c.rest = quote :: rest := List.append_cancel_left hc.whole.symm
  refine ⟨fun w t after hsplit hinside => ?_,fun hopen => ?_,closes_or_staysOpen quote rest,
    fun _ _ => ⟨rfl,hc.position.symm⟩,fun t after hwritten => ?_⟩
  · subst hsplit
    exact literal_of_inside hquote hc hinside
  · rw [literal_of_staysOpen hquote hrest hopen,Cursor.fault,hc.offset]
  · have hsplit : rest = t.flatMap (escapedIn quote) ++ quote :: after := by
      rw [hrest,quoted,List.cons_append,List.append_assoc] at hwritten
      exact (List.cons.inj hwritten).2
    subst hsplit
    exact literal_of_inside hquote hc (inside_flatMap_escapedIn quote t)

/-- The third backslash protects the quote behind it, and the other kind of quote is a character like any
other. A backslash at the end protects nothing, and leaves the literal open. -/
theorem literal_ends_at_free_quote_of_backslashes :
    let before : Text := "a\n".toList
    let inside : Text := "\\\\\\'\"".toList
    let source (rest : Text) : Text := before ++ '\'' :: rest
    let c (rest : Text) : Cursor := (Cursor.start (source rest)).advance 2
    let closed := inside ++ '\'' :: "'".toList
    let cut := inside ++ ['\\']
    isQuote '\'' = true ∧ (c closed).StandsBehind before (source closed) ∧
      (c cut).StandsBehind before (source cut) ∧
      (∃ d, literal (c closed) = .ok ("\\'\"".toList,d) ∧ d.rest = "'".toList ∧ d.position = ⟨2,8⟩) ∧
      literal (c cut) = .error ⟨.openLiteral,2,1⟩ ∧
      (Refusal.mk (source cut) 1000 100 ⟨.openLiteral,2,1⟩).position = ⟨2,1⟩ := by
  intro before inside source c closed cut
  have hquote : isQuote '\'' = true := by decide
  have hinside : Inside '\'' inside "\\'\"".toList :=
    .escape '\\' (.escape '\'' (.plain (by decide) (by decide) .nil))
  have hclosed : (c closed).StandsBehind before (source closed) :=
    (Cursor.standsBehind_start (source closed)).advance 2
  have hcut : (c cut).StandsBehind before (source cut) :=
    (Cursor.standsBehind_start (source cut)).advance 2
  obtain ⟨hread,-⟩ := literal_ends_at_free_quote hquote hclosed
  obtain ⟨-,hrefused,-,hplace,-⟩ := literal_ends_at_free_quote hquote hcut
  obtain ⟨d,hliteral,hrest,hd⟩ := hread inside _ _ rfl hinside
  exact ⟨hquote,hclosed,hcut,⟨d,hliteral,hrest,hd.position⟩,
    hrefused ⟨inside,_,hinside,Or.inr rfl⟩,(hplace 1000 100).2⟩

end Stencil.Grammar

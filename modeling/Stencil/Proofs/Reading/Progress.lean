import Stencil.Proofs.Reading.Document
import Stencil.Proofs.Source.Tracking

/-! # Reading goes forward and ends

No production goes back or leaves the text, and an argument, a condition or a directive takes one
character at least. So no repetition needs a bound: round after round, as long as another item begins,
comes to an end by itself, and takes no more rounds than there are characters.
-/
namespace Stencil.Grammar
variable {test : Cursor → Bool} {item : Reading α} {c d : Cursor} {levels least : Nat}

/-- Round after round of `item` as long as `test` holds and no round is refused, with the number of
rounds and what comes of them. A round that is refused counts. -/
inductive Loop (test : Cursor → Bool) (item : Reading α) :
    Cursor → Nat → Except Fault (List α × Cursor) → Prop where
  | stop {c : Cursor} (h : test c = false) : Loop test item c 0 (.ok ([],c))
  | refused {c : Cursor} {fault : Fault} (h : test c = true) (hx : item c = .error fault) :
    Loop test item c 1 (.error fault)
  | next {c d : Cursor} {x : α} {n : Nat} {result : Except Fault (List α × Cursor)}
    (h : test c = true) (hx : item c = .ok (x,d)) (hmore : Loop test item d n result) :
    Loop test item c (n + 1) (result.map fun (xs,e) => (x :: xs,e))

/-- Every round leaves fewer characters. -/
def Shrinks (test : Cursor → Bool) (item : Reading α) : Prop :=
  ∀ ⦃c x d⦄, test c = true → item c = .ok (x,d) → d.rest.length < c.rest.length

/-- Even without a bound the repetition ends, in one way, which is that of `many`. Every round takes
one of the characters that are left. -/
def EndsInTime (test : Cursor → Bool) (item : Reading α) : Prop :=
  ∀ c : Cursor, ∃ n, n ≤ c.rest.length ∧
    (∀ m result, Loop test item c m result ↔ m = n ∧ result = many test item c) ∧
    ∀ xs d, many test item c = .ok (xs,d) → n + d.rest.length ≤ c.rest.length

variable {m n : Nat} {result result' : Except Fault (List α × Cursor)}

theorem Loop.unique (h : Loop test item c m result) (h' : Loop test item c n result') :
    m = n ∧ result = result' := by
  induction h generalizing n result' with
  | stop h =>
    cases h' with
    | stop _ => exact ⟨rfl,rfl⟩
    | refused ht _ => simp [h] at ht
    | next ht _ _ => simp [h] at ht
  | refused ht hx =>
    cases h' with
    | stop h => simp [h] at ht
    | refused _ hx' =>
      obtain rfl := Except.error.inj (hx.symm.trans hx')
      exact ⟨rfl,rfl⟩
    | next _ hx' _ => cases hx.symm.trans hx'
  | next ht hx _ ih =>
    cases h' with
    | stop h => simp [h] at ht
    | refused _ hx' => cases hx.symm.trans hx'
    | next _ hx' hmore =>
      obtain ⟨rfl,rfl⟩ := Prod.mk.inj (Except.ok.inj (hx.symm.trans hx'))
      obtain ⟨rfl,rfl⟩ := ih hmore
      exact ⟨rfl,rfl⟩

theorem exists_loop (h : Shrinks test item) (c : Cursor) : ∃ n result, Loop test item c n result := by
  -- nothing bounds the rounds but the characters that are left
  induction hlength : c.rest.length using Nat.strongRecOn generalizing c with
  | ind length ih =>
    cases ht : test c with
    | false => exact ⟨0,_,.stop ht⟩
    | true =>
      cases hx : item c with
      | error fault => exact ⟨1,_,.refused ht hx⟩
      | ok p =>
        obtain ⟨n,result,hmore⟩ := ih p.2.rest.length (hlength ▸ h ht hx) p.2 rfl
        exact ⟨n + 1,_,.next ht hx hmore⟩

/-- A round at the end of the text can only be a refused one, and then it is the last. -/
theorem Loop.rounds_le (h : Loop test item c n result) (hs : Shrinks test item) :
    n ≤ c.rest.length + 1 ∧ ∀ xs d, result = .ok (xs,d) → n + d.rest.length ≤ c.rest.length := by
  induction h with
  | stop _ =>
    refine ⟨Nat.zero_le _,fun xs d hresult => ?_⟩
    obtain ⟨-,rfl⟩ := Prod.mk.inj (Except.ok.inj hresult)
    omega
  | refused _ _ => exact ⟨by omega,fun xs d hresult => by cases hresult⟩
  | @next _ _ _ _ result ht hx _ ih =>
    have hlt := hs ht hx
    refine ⟨by omega,fun xs e hresult => ?_⟩
    cases result with
    | error fault => cases hresult
    | ok p =>
      obtain ⟨-,rfl⟩ := Prod.mk.inj (Except.ok.inj hresult)
      have hle := ih.2 p.1 p.2 rfl
      omega

theorem Repeats.shrinks (h : Repeats test item) : Shrinks test item :=
  fun _ _ _ ht hx => (h.consumes ht hx).2

theorem Repeats.ne_nil (h : Repeats test item) (ht : test c = true) : c.rest ≠ [] := by
  intro hc
  rw [h.stops c hc] at ht
  cases ht

theorem Repeats.rounds_le (h : Repeats test item) (hloop : Loop test item c n result) :
    n ≤ c.rest.length := by
  induction hloop with
  | stop _ => exact Nat.zero_le _
  | refused ht _ => exact List.length_pos_iff.mpr (h.ne_nil ht)
  | next ht hx _ ih =>
    have hlt := (h.consumes ht hx).2
    omega

/-- As many rounds as there are characters are enough. -/
theorem Repeats.manyWithin_eq (h : Repeats test item) (hloop : Loop test item c n result) (bound : Text)
    (hbound : c.rest.length ≤ bound.length) : manyWithin test item bound c = result := by
  induction hloop generalizing bound with
  | stop ht =>
    cases bound with
    | nil => rfl
    | cons b bound => rw [manyWithin,if_neg (by simp [ht])]
  | refused ht hx =>
    have hpos := List.length_pos_iff.mpr (h.ne_nil ht)
    cases bound with
    | nil => exact absurd hbound (Nat.not_le.mpr hpos)
    | cons b bound =>
      rw [manyWithin,if_pos ht,hx]
      rfl
  | @next _ _ _ _ result ht hx _ ih =>
    have hpos := List.length_pos_iff.mpr (h.ne_nil ht)
    have hlt := (h.consumes ht hx).2
    cases bound with
    | nil => exact absurd hbound (Nat.not_le.mpr hpos)
    | cons b bound =>
      rw [List.length_cons] at hbound
      have hmore := ih bound (by omega)
      rw [manyWithin,if_pos ht,hx]
      change (manyWithin test item bound _ >>= fun p => _) = _
      rw [hmore]
      cases result <;> rfl

theorem Repeats.endsInTime (h : Repeats test item) : EndsInTime test item := by
  intro c
  obtain ⟨n,result,hloop⟩ := exists_loop h.shrinks c
  obtain rfl : many test item c = result := h.manyWithin_eq hloop c.rest Nat.le.refl
  refine ⟨n,h.rounds_le hloop,fun m result => ⟨fun h' => h'.unique hloop,?_⟩,
    (hloop.rounds_le h.shrinks).2⟩
  rintro ⟨rfl,rfl⟩
  exact hloop

def atChar (p : Char → Bool) (c : Cursor) : Bool := c.rest.head?.any p

/-- One character, whatever it is. -/
def character : Reading Char := fun c =>
  match c.rest with
  | [] => .error (c.fault .endOfText 1)
  | x :: _ => .ok (x,c.advance 1)

theorem repeats_character (p : Char → Bool) : Repeats (atChar p) character where
  stops c h := by simp [atChar,h]
  consumes c x d ht h := by
    cases hc : c.rest with
    | nil => simp [atChar,hc] at ht
    | cons y rest =>
      simp only [character,hc,Except.ok.injEq,Prod.mk.injEq] at h
      obtain ⟨-,rfl⟩ := h
      rw [Cursor.rest_advance_one hc]
      exact ⟨Cursor.reaches_advance 1 c,Nat.lt_succ_self _⟩

theorem rounds_character (p : Char → Bool) (c : Cursor) :
    Rounds (atChar p) character c (c.rest.takeWhile p) (c.skipWhile p) := by
  induction hc : c.rest generalizing c with
  | nil =>
    rw [Cursor.skipWhile,hc]
    exact .stop (by simp [atChar,hc])
  | cons x rest ih =>
    rw [Cursor.skipWhile,hc]
    by_cases hx : p x = true
    · have hmore := ih (c.advance 1) (Cursor.rest_advance_one hc)
      rw [Cursor.skipWhile,Cursor.rest_advance_one hc,Cursor.advance_advance,Nat.add_comm] at hmore
      rw [List.takeWhile_cons_of_pos hx]
      exact .next (by simp [atChar,hc,hx]) (by simp [character,hc]) hmore
    · rw [List.takeWhile_cons_of_neg hx]
      exact .stop (by simpa [atChar,hc] using hx)

/-- A run of characters is read one by one. -/
theorem many_character (p : Char → Bool) (c : Cursor) :
    many (atChar p) character c = .ok (takeWhile p c) :=
  (many_eq_ok (repeats_character p)).mpr (rounds_character p c)

def beforeQuote (quote : Char) (c : Cursor) : Bool := decide (c.rest.head? ≠ some quote)

/-- One round inside of the literal that opens at `opening`: a character, or what stands behind a
backslash. At the end of the text the literal is still open. -/
def literalRound (opening : Cursor) : Reading Text := fun c =>
  match c.rest with
  | [] => .error (opening.fault .openLiteral 1)
  | x :: rest => if x = '\\' then .ok (rest.take 1,c.advance 2) else .ok ([x],c.advance 1)

/-- From inside of the literal up to its end, at once. -/
def literalRest (quote : Char) (opening : Cursor) : Reading Text := fun c =>
  match unquote? quote c.rest with
  | some (t,k) => .ok (t,c.advance k)
  | none => .error (opening.fault .openLiteral 1)

variable {quote : Char} {opening : Cursor} {t : Text}

theorem literal_eq_literalRest {rest : Text} (hc : c.rest = quote :: rest)
    (hquote : isQuote quote = true) : literal c = literalRest quote c (c.advance 1) := by
  simp only [literal,literalRest,hc,if_pos hquote,Cursor.rest_advance_one hc]
  cases unquote? quote rest with
  | none => rfl
  | some p => simp [Cursor.advance_advance,Nat.add_comm]

theorem exists_of_literalRound (h : literalRound opening c = .ok (t,d)) : ∃ x rest, c.rest = x :: rest ∧
    ((x = '\\' ∧ rest.take 1 = t ∧ c.advance 2 = d) ∨ (x ≠ '\\' ∧ [x] = t ∧ c.advance 1 = d)) := by
  unfold literalRound at h
  split at h
  · cases h
  · next x rest hc =>
    refine ⟨x,rest,hc,?_⟩
    split at h
    · next hx => exact Or.inl ⟨hx,Prod.mk.inj (Except.ok.inj h)⟩
    · next hx => exact Or.inr ⟨hx,Prod.mk.inj (Except.ok.inj h)⟩

theorem shrinks_literalRound : Shrinks (beforeQuote quote) (literalRound opening) := by
  intro c t d _ h
  obtain ⟨x,rest,hc,⟨_,_,rfl⟩ | ⟨_,_,rfl⟩⟩ := exists_of_literalRound h
  · exact length_advance_lt Nat.two_pos (by simp [hc])
  · exact length_advance_lt Nat.one_pos (by simp [hc])

/-- Reading at once begins with one round. -/
theorem literalRest_of_round (ht : beforeQuote quote c = true)
    (h : literalRound opening c = .ok (t,d)) :
    literalRest quote opening c = (literalRest quote opening d).map fun (u,e) => (t ++ u,e) := by
  obtain ⟨x,rest,hc,⟨rfl,rfl,rfl⟩ | ⟨hx,rfl,rfl⟩⟩ := exists_of_literalRound h
  · have hquote : '\\' ≠ quote := by simpa [beforeQuote,hc] using ht
    simp only [literalRest,Cursor.rest_advance,hc,List.drop_succ_cons]
    cases rest with
    | nil => simp [unquote?,hquote,Except.map]
    | cons y s =>
      rw [unquote?_escape hquote.symm,List.drop_succ_cons,List.drop_zero]
      cases unquote? quote s with
      | none => rfl
      | some p => simp [Except.map,Cursor.advance_advance,Nat.add_comm]
  · have hquote : x ≠ quote := by simpa [beforeQuote,hc] using ht
    simp only [literalRest,Cursor.rest_advance_one hc,hc,unquote?_plain hquote hx]
    cases unquote? quote rest with
    | none => rfl
    | some p => simp [Except.map,Cursor.advance_advance,Nat.add_comm]

/-- What the rounds have taken, with the cursor behind the closing quote. -/
def closeLiteral : Except Fault (List Text × Cursor) → Except Fault (Text × Cursor) :=
  Except.map fun (ts,d) => (ts.flatten,d.advance 1)

theorem Loop.closeLiteral_eq {result : Except Fault (List Text × Cursor)}
    (h : Loop (beforeQuote quote) (literalRound opening) c n result) :
    closeLiteral result = literalRest quote opening c := by
  generalize htest : beforeQuote quote = test at h
  generalize hitem : literalRound opening = item at h
  induction h with subst htest hitem
  | @stop c ht =>
    have hhead : c.rest.head? = some quote := by simpa [beforeQuote] using ht
    obtain ⟨s,hs⟩ := List.head?_eq_some_iff.mp hhead
    rw [literalRest,hs,unquote?_quote]
    rfl
  | @refused c fault _ hx =>
    cases hc : c.rest with
    | nil =>
      simp only [literalRound,hc] at hx
      obtain rfl := Except.error.inj hx
      simp [closeLiteral,Except.map,literalRest,hc,unquote?]
    | cons x rest =>
      simp only [literalRound,hc] at hx
      split at hx <;> cases hx
  | @next _ _ _ _ result ht hx _ ih =>
    rw [literalRest_of_round ht hx,← ih]
    cases result <;> rfl

/-- Inside of a literal the rounds end, in one way, and there are no more of them than characters from
its opening quote on. -/
theorem exists_literal_rounds {rest : Text} (hc : c.rest = quote :: rest)
    (hquote : isQuote quote = true) :
    ∃ n result, n ≤ c.rest.length ∧
      (∀ m result', Loop (beforeQuote quote) (literalRound c) (c.advance 1) m result' ↔
        m = n ∧ result' = result) ∧
      literal c = closeLiteral result := by
  obtain ⟨n,result,hloop⟩ := exists_loop (@shrinks_literalRound quote c) (c.advance 1)
  have hle := (hloop.rounds_le shrinks_literalRound).1
  rw [Cursor.rest_advance_one hc] at hle
  refine ⟨n,result,?_,fun m result' => ⟨fun h => h.unique hloop,?_⟩,?_⟩
  · rw [hc]
    exact hle
  · rintro ⟨rfl,rfl⟩
    exact hloop
  · rw [hloop.closeLiteral_eq]
    exact literal_eq_literalRest hc hquote

/-- A reading that begins in `source` ends in `source`, `least` characters on at least. -/
def Advances (least : Nat) (reading : Reading α) : Prop :=
  ∀ ⦃source read c x d⦄, c.StandsBehind read source → reading c = .ok (x,d) →
    c.offset + least ≤ d.offset ∧ d.offset ≤ source.length ∧
      d.StandsBehind (source.take d.offset) source

theorem advances_of_reaches {reading : Reading α}
    (h : ∀ ⦃c x d⦄, reading c = .ok (x,d) → c.Reaches d ∧ d.rest.length + least ≤ c.rest.length) :
    Advances least reading := by
  intro source read c x d hc hx
  obtain ⟨⟨n,hn,rfl⟩,hle⟩ := h hx
  have hd := hc.advance n
  have hbefore := hc.length
  have hafter := hd.length
  refine ⟨by omega,by omega,?_⟩
  rw [hd.take]
  exact hd

theorem Consumes.advances {reading : Reading α} (h : Consumes reading) : Advances 1 reading :=
  advances_of_reaches fun _ _ _ hx => ⟨(h hx).1,(h hx).2⟩

theorem Moves.advances {reading : Reading α} (h : Moves reading) : Advances 0 reading :=
  advances_of_reaches fun _ _ _ hx => ⟨h hx,(h hx).length_le⟩

theorem advances_expect (role : Role) (token : Text) :
    Advances token.length fun c => (expect role token c).map ((),·) := by
  refine advances_of_reaches fun c x d h => ?_
  cases he : expect role token c with
  | error fault => simp [he,Except.map] at h
  | ok e =>
    rw [he] at h
    obtain ⟨-,rfl⟩ := Prod.mk.inj (Except.ok.inj h)
    exact ⟨reaches_of_expect he,Nat.le_of_eq (length_of_expect he)⟩

/-- Some characters as they are, and what `after` takes behind them. -/
theorem advances_take_then (n : Nat) {after : Cursor → Text × Cursor}
    (hafter : ∀ c : Cursor, c.Reaches (after c).2) :
    Advances n fun c => (take n c).map fun p => after p.2 := by
  refine advances_of_reaches fun c t d h => ?_
  cases htake : take n c with
  | error fault => simp [htake,Except.map] at h
  | ok p =>
    rw [htake] at h
    obtain rfl : (after p.2).2 = d := (Prod.mk.inj (Except.ok.inj h)).2
    obtain ⟨hn,-,hp⟩ := take_eq_ok.mp htake
    have hle := (hafter p.2).length_le
    have hlength : p.2.rest.length = c.rest.length - n := by
      rw [hp,Cursor.rest_advance,List.length_drop]
    exact ⟨(hp ▸ Cursor.reaches_advance n c).trans (hafter p.2),by omega⟩

theorem advances_anyOpenTag : Advances 2 anyOpenTag := by
  have h : anyOpenTag = fun c => (take 2 c).map fun p =>
      takeWhile (fun x => x != ' ' && x != '\x7d') p.2 := by
    funext c
    unfold anyOpenTag
    cases take 2 c <;> rfl
  rw [h]
  exact advances_take_then 2 fun c => Cursor.reaches_skipWhile _ c

/-- What follows the opening letters of an end tag. -/
def restOfEndTag (c : Cursor) : Text × Cursor :=
  let (name,c) := takeWhile (· != '\x7d') c
  (name,if c.startsWith closeToken then c.advance 2 else c)

theorem reaches_restOfEndTag (c : Cursor) : c.Reaches (restOfEndTag c).2 := by
  have hbraces (d : Cursor) : d.Reaches (if d.startsWith closeToken then d.advance 2 else d) := by
    split
    · exact Cursor.reaches_advance 2 d
    · exact Cursor.Reaches.refl d
  exact (Cursor.reaches_skipWhile (· != '\x7d') c).trans (hbraces _)

theorem advances_anyEndTag : Advances 3 anyEndTag := by
  have h : anyEndTag = fun c => (take 3 c).map fun p => restOfEndTag p.2 := by
    funext c
    unfold anyEndTag
    cases take 3 c <;> rfl
  rw [h]
  exact advances_take_then 3 reaches_restOfEndTag

/-- How far every production goes at least. -/
structure Progress (levels : Nat) : Prop where
  run : ∀ p : Char → Bool, Advances 0 fun c => .ok (takeWhile p c)
  optionalName : Advances 0 fun c => .ok (optionalName c)
  token : ∀ role token, Advances token.length fun c => (expect role token c).map ((),·)
  openTag : Advances 2 anyOpenTag
  endTag : Advances 3 anyEndTag
  literal : Advances 1 literal
  argument : Advances 1 (argument levels)
  array : Advances 1 (array levels)
  path : Advances 1 (variableAt levels)
  param : Advances 1 (paramAt levels)
  call : Advances 1 (callAt levels)
  condition : Advances 1 (condition levels)
  directive : ∀ entry ∈ directives levels (body levels), Advances 1 entry.2
  blocks : Advances 0 (blocks levels)

theorem progress (levels : Nat) : Progress levels where
  run p := advances_of_reaches fun c t d h => by
    obtain ⟨-,rfl⟩ := Prod.mk.inj (Except.ok.inj h)
    exact ⟨Cursor.reaches_skipWhile p c,(Cursor.reaches_skipWhile p c).length_le⟩
  optionalName := advances_of_reaches fun c t d h => by
    obtain ⟨-,rfl⟩ := Prod.mk.inj (Except.ok.inj h)
    exact ⟨Cursor.reaches_advance _ c,(Cursor.reaches_advance _ c).length_le⟩
  token := advances_expect
  openTag := advances_anyOpenTag
  endTag := advances_anyEndTag
  literal := consumes_literal.advances
  argument := (consumes_argument levels).advances
  array := (consumes_array levels).advances
  path := (consumes_variablePath (moves_nestedArgument levels)).advances
  param := (consumes_param (moves_nestedArgument levels)).advances
  call := (consumes_call (moves_nestedArgument levels)).advances
  condition := (consumes_condition levels).advances
  directive _ h := (consumes_of_mem_directives (moves_body levels) h).advances
  blocks := (moves_body (levels + 1)).advances

/-- No loop needs a bound. The first item of an array stands outside of the loop over the others, and
takes a character as well. -/
structure LoopsEnd (levels : Nat) : Prop where
  run : ∀ p, EndsInTime (atChar p) character ∧ ∀ c, many (atChar p) character c = .ok (takeWhile p c)
  literal : ∀ quote rest c, c.rest = quote :: rest → isQuote quote = true →
    ∃ n result, n ≤ c.rest.length ∧
      (∀ m result', Loop (beforeQuote quote) (literalRound c) (c.advance 1) m result' ↔
        m = n ∧ result' = result) ∧
      literal c = closeLiteral result
  steps : EndsInTime atStep (step (nestedArgument levels))
  calls : EndsInTime atArrow (pipedCall (nestedArgument levels))
  params : EndsInTime atName (spacedParam (nestedArgument levels))
  firstItem : Consumes (arrayItem (nestedArgument levels))
  items : EndsInTime atComma (nextItem (nestedArgument levels))
  blocks : EndsInTime atBlock (blockWith levels (body levels))

theorem loopsEnd (levels : Nat) : LoopsEnd levels where
  run p := ⟨(repeats_character p).endsInTime,many_character p⟩
  literal _ _ _ := exists_literal_rounds
  steps := (repeats_step (moves_nestedArgument levels)).endsInTime
  calls := (repeats_pipedCall (moves_nestedArgument levels)).endsInTime
  params := (repeats_spacedParam (moves_nestedArgument levels)).endsInTime
  firstItem := consumes_arrayItem (consumes_nestedArgument levels)
  items := (repeats_nextItem (moves_nestedArgument levels)).endsInTime
  blocks := (repeats_blockWith levels (moves_body levels)).endsInTime

theorem Rounds.test_eq_false {xs : List α} (h : Rounds test item c xs d) : test d = false := by
  induction h with
  | stop h => exact h
  | next _ _ _ ih => exact ih

/-- Every production that is read ends in the text and not before its start, and one for an argument,
an array, a variable, a parameter, a call, a condition or a directive takes a character. A sequence of
blocks ends at the end of the text or at an end tag. No loop takes more rounds than there are characters
left, whatever the text, and a tree is only read by taking the whole of it. -/
theorem reading_ends (levels : Nat) (source : Text) :
    Progress levels ∧ LoopsEnd levels ∧
    (∀ c xs d, blocks levels c = .ok (xs,d) → d.rest = [] ∨ openToken ['/'] <+: d.rest) ∧
    (∀ xs, readBlocks levels source = .ok xs →
      ∃ d, blocks levels (.start source) = .ok (xs,d) ∧ d.offset = source.length) ∧
    ∀ x, readCondition levels source = .ok x →
      ∃ d, condition levels (.start source) = .ok (x,d) ∧ d.skipBlank.offset = source.length := by
  refine ⟨progress levels,loopsEnd levels,fun c xs d h => ?_,fun xs h => ?_,fun x h => ?_⟩
  · exact endsBlocks_of_atBlock (blocks_eq_ok.mp h).test_eq_false
  · obtain ⟨d,hd,hend⟩ := readBlocks_eq_ok.mp h
    have hoffset := (moves_body (levels + 1) hd).offset_of_start
    rw [hend] at hoffset
    exact ⟨d,hd,hoffset⟩
  · obtain ⟨d,hd,hend⟩ := readCondition_eq_ok.mp h
    have hreach := (moves_condition levels hd).trans (Cursor.reaches_skipBlank d)
    have hoffset := hreach.offset_of_start
    rw [hend] at hoffset
    exact ⟨d,hd,hoffset⟩

end Stencil.Grammar

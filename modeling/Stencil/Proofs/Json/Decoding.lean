import Stencil.Proofs.Json.Token

/-! # Decoding JSON

A decoder for JSON documents. It reads every document as the value that the document is for, so that
no text is a document for two values.
-/
namespace Stencil.Json

/-- Reads with `read` what blanks may stand around. -/
def spaced (read : Text → Option (α × Text)) (t : Text) : Option (α × Text) :=
  (read (t.dropWhile isSpacing)).map fun (a,rest) => (a,rest.dropWhile isSpacing)

/-- Reads with `read`, again after every comma, up to `close`. -/
def listed (read : Text → Option (α × Text)) (close : Char) : (rounds : Nat) → Text →
    Option (List α × Text)
  | 0, _ => none
  | rounds + 1, t => do
    let (a,rest) ← read t
    match rest with
    | ',' :: rest => do
      let (more,rest) ← listed read close rounds rest
      some (a :: more,rest)
    | c :: rest => if c = close then some ([a],rest) else none
    | [] => none

/-- What stands up to `close`: blanks alone, or parts that `read` reads. -/
def enclosed (read : Text → Option (α × Text)) (close : Char) (t : Text) :
    Option (List α × Text) :=
  match t.dropWhile isSpacing with
  | c :: rest => if c = close then some ([],rest) else listed read close t.length t
  | [] => none

/-- A member of an object, whose value `read` reads. -/
def member? (read : Text → Option (Value × Text)) (t : Text) :
    Option ((Value × Value) × Text) := do
  let (name,rest) ← spaced string? t
  match rest with
  | ':' :: rest => (read rest).map fun (v,rest) => ((.text name,v),rest)
  | _ => none

/-- A value that nests at most `depth` deep, and the text behind it. -/
def value? : (depth : Nat) → Text → Option (Value × Text)
  | 0, _ => none
  | depth + 1, '[' :: rest =>
    (enclosed (spaced (value? depth)) ']' rest).map fun (vs,rest) => (.list vs,rest)
  | depth + 1, '\x7b' :: rest =>
    (enclosed (member? (spaced (value? depth))) '\x7d' rest).map fun (entries,rest) =>
      (.mapping (Mapping.ofEntries entries),rest)
  | _ + 1, t => scalar? t

/-- The value that a document is for. -/
def decode? (t : Text) : Option Value :=
  match spaced (value? (t.length + 1)) t with
  | some (v,[]) => some v
  | _ => none

variable {t u w rest : Text}

theorem dropWhile_spacing (ht : Spacing t) (hrest : ∀ c ∈ rest.head?, isSpacing c = false) :
    (t ++ rest).dropWhile isSpacing = rest := by
  rw [List.dropWhile_append_of_pos ht]
  cases rest with
  | nil => rfl
  | cons c r => exact List.dropWhile_cons_of_neg (by simp [hrest c rfl])

/-- A character that is no blank and closes no bracket. -/
def Leads (c : Char) : Prop := isSpacing c = false ∧ c ≠ ']' ∧ c ≠ '\x7d'

instance (c : Char) : Decidable (Leads c) := inferInstanceAs (Decidable (_ ∧ _))

theorem leads_of_beginsNumber {c : Char} (hc : beginsNumber c = true) : Leads c := by
  simp only [beginsNumber,Bool.and_eq_true,bne_iff_ne,Bool.not_eq_true'] at hc
  exact ⟨hc.1.2,hc.1.1.1.2,hc.1.1.2⟩

/-- A value begins at once. -/
theorem Writes.exists_leads {v : Value} (h : Writes (.value v) t) :
    ∃ c r, t = c :: r ∧ Leads c := by
  cases h with
  | null => exact ⟨_,_,rfl,by decide⟩
  | bool b => cases b <;> exact ⟨_,_,rfl,by decide⟩
  | int negative ht =>
    obtain ⟨c,r,hcons,hc⟩ := exists_beginsNumber negative ht.digits []
    rw [List.append_nil] at hcons
    exact ⟨c,r,hcons,leads_of_beginsNumber hc⟩
  | float negative ht _ _ _ _ =>
    obtain ⟨c,r,hcons,hc⟩ := exists_beginsNumber negative ht.digits _
    rw [List.append_assoc]
    exact ⟨c,r,hcons,leads_of_beginsNumber hc⟩
  | text _ => exact ⟨_,_,rfl,by decide⟩
  | noItems _ => exact ⟨_,_,rfl,by decide⟩
  | list _ => exact ⟨_,_,rfl,by decide⟩
  | noMembers _ => exact ⟨_,_,rfl,by decide⟩
  | mapping _ => exact ⟨_,_,rfl,by decide⟩

/-- A text that begins with blanks, or without, but not with the end of the brackets around it. -/
def Opens (t : Text) : Prop := ∃ blanks c r, t = blanks ++ c :: r ∧ Spacing blanks ∧ Leads c

theorem Opens.append (h : Opens t) (u : Text) : Opens (t ++ u) := by
  obtain ⟨blanks,c,r,rfl,hc⟩ := h
  exact ⟨blanks,c,r ++ u,by simp,hc⟩

theorem Writes.element_opens {v : Value} (h : Writes (.element v) t) : Opens t := by
  cases h with
  | element hblanks hv _ =>
    obtain ⟨c,r,rfl,hc⟩ := hv.exists_leads
    exact ⟨_,c,_,rfl,hblanks,hc⟩

theorem Writes.items_opens {vs : List Value} (h : Writes (.items vs) t) : Opens t := by
  cases h with
  | lastItem hv => exact hv.element_opens
  | moreItems hv _ => exact hv.element_opens.append _

theorem Writes.member_opens {entry : Value × Value} (h : Writes (.member entry) t) : Opens t := by
  cases h with
  | member hblanks _ _ _ => exact ⟨_,'"',_,rfl,hblanks,by decide⟩

theorem Writes.members_opens {entries : List (Value × Value)} (h : Writes (.members entries) t) :
    Opens t := by
  cases h with
  | lastMember he => exact he.member_opens
  | moreMembers he _ => exact he.member_opens.append _

/-- What may follow a value with the blanks around it. -/
def Stops (rest : Text) : Prop := ∀ c ∈ rest.head?, c = ',' ∨ c = ']' ∨ c = '\x7d'

theorem stops_nil : Stops [] := fun _ hc => absurd hc (by simp)

theorem stops_cons {c : Char} (h : c = ',' ∨ c = ']' ∨ c = '\x7d') : Stops (c :: rest) := by
  rintro _ ⟨⟩
  exact h

theorem Stops.not_spacing (h : Stops rest) : ∀ c ∈ rest.head?, isSpacing c = false := by
  intro c hc
  obtain rfl | rfl | rfl := h c hc <;> decide

theorem Stops.ends_append {after : Text} (h : Stops rest) (hafter : Spacing after) :
    Ends (after ++ rest) := by
  cases after with
  | nil => exact fun c hc => .inr (h c hc)
  | cons d r =>
    rintro c ⟨⟩
    exact .inl (hafter _ List.mem_cons_self)

section Brackets

variable {α : Type} {read : Text → Option (α × Text)} {close : Char} {a : α} {as : List α}

theorem spaced_append {before after : Text} (hbefore : Spacing before)
    (ht : ∀ c ∈ t.head?, isSpacing c = false) (hafter : Spacing after)
    (hrest : ∀ c ∈ rest.head?, isSpacing c = false) (hread : read t = some (a,after ++ rest)) :
    spaced read (before ++ t) = some (a,rest) := by
  simp only [spaced,dropWhile_spacing hbefore ht,hread,dropWhile_spacing hafter hrest,
    Option.map_some]

/-- Up to `close`, `read` reads the list from the text, for which it goes through no more rounds
than the text has characters. -/
def Lists (read : Text → Option (α × Text)) (close : Char) (as : List α) (t : Text) : Prop :=
  ∀ rest rounds, t.length ≤ rounds →
    listed read close (rounds + 1) (t ++ close :: rest) = some (as,rest)

theorem lists_last (hclose : close = ']' ∨ close = '\x7d')
    (hread : ∀ rest, Stops rest → read (t ++ rest) = some (a,rest)) : Lists read close [a] t := by
  intro rest rounds _
  have hcomma : close ≠ ',' := by
    obtain rfl | rfl := hclose <;> decide
  simp only [listed,hread _ (stops_cons (.inr hclose)),Option.bind_eq_bind,Option.bind_some,if_true]

theorem lists_more (hread : ∀ rest, Stops rest → read (t ++ rest) = some (a,rest))
    (hmore : Lists read close as u) : Lists read close (a :: as) (t ++ ',' :: u) := by
  intro rest rounds hr
  simp only [List.length_append,List.length_cons] at hr
  obtain ⟨k,rfl⟩ : ∃ k, rounds = k + 1 := Nat.exists_eq_add_one_of_ne_zero (by omega)
  rw [List.append_assoc,List.cons_append,listed]
  simp only [hread _ (stops_cons (.inl rfl)),hmore rest k (by omega),Option.bind_eq_bind,
    Option.bind_some]

theorem enclosed_spacing (ht : Spacing t) (hclose : isSpacing close = false) :
    enclosed read close (t ++ close :: rest) = some ([],rest) := by
  have hdrop : (t ++ close :: rest).dropWhile isSpacing = close :: rest :=
    dropWhile_spacing ht (by simp [hclose])
  simp only [enclosed,hdrop,if_true]

theorem enclosed_of_opens (ht : Opens t) (hclose : close = ']' ∨ close = '\x7d') :
    enclosed read close t = listed read close t.length t := by
  obtain ⟨blanks,c,r,rfl,hblanks,hc⟩ := ht
  have hdrop : (blanks ++ c :: r).dropWhile isSpacing = c :: r :=
    dropWhile_spacing hblanks (by simp [hc.1])
  have hne : c ≠ close := by
    obtain rfl | rfl := hclose
    · exact hc.2.1
    · exact hc.2.2
  simp only [enclosed,hdrop,if_neg hne]

theorem enclosed_lists (ho : Opens t) (hclose : close = ']' ∨ close = '\x7d')
    (h : Lists read close as t) (rest : Text) :
    enclosed read close (t ++ close :: rest) = some (as,rest) := by
  have hlength : (t ++ close :: rest).length = t.length + rest.length + 1 := by
    rw [List.length_append,List.length_cons,Nat.add_assoc]
  rw [enclosed_of_opens (ho.append _) hclose,hlength,h rest _ (Nat.le_add_right _ _)]

end Brackets

/-- The decoder, with `depth` to go, reads the part from the text and leaves what follows. -/
def Part.Decoded (depth : Nat) (t : Text) : Part → Prop
  | value v => ∀ rest, Ends rest → value? depth (t ++ rest) = some (v,rest)
  | element v => ∀ rest, Stops rest → spaced (value? depth) (t ++ rest) = some (v,rest)
  | member entry => ∀ rest, Stops rest →
      member? (spaced (value? depth)) (t ++ rest) = some (entry,rest)
  | items vs => Lists (spaced (value? depth)) ']' vs t
  | members entries => Lists (member? (spaced (value? depth))) '\x7d' entries t

theorem value?_of_beginsNumber {c : Char} (hc : beginsNumber c = true) (depth : Nat) (r : Text) :
    value? (depth + 1) (c :: r) = number? (c :: r) := by
  rw [value?,scalar?,string?_of_beginsNumber hc,word?_of_beginsNumber hc]
  · rfl
  · rintro _ ⟨⟩
    exact absurd hc (by decide)
  · rintro _ ⟨⟩
    exact absurd hc (by decide)

/-- What a text is read as that is written as a number. -/
theorem value?_number {n : Nat} (negative : Bool) (ht : WholeWritten n t) (hu : Fraction u)
    (hw : Exponent w) (hrest : Ends rest) (depth : Nat) :
    value? (depth + 1) (signText negative ++ (t ++ (u ++ (w ++ rest)))) =
      if u ++ w = [] then some (.int (signed negative n),rest)
      else (Double.ofText? (signText negative ++ t ++ (u ++ w))).map (.float ·,rest) := by
  obtain ⟨c,r,hcons,hc⟩ := exists_beginsNumber negative ht.digits (u ++ (w ++ rest))
  rw [hcons,value?_of_beginsNumber hc,← hcons,
    number?_append negative ht hu hw hrest]

theorem value?_text {s : Text} (hs : CharsWritten s t) (depth : Nat) (rest : Text) :
    value? (depth + 1) ('"' :: (t ++ '"' :: rest)) = some (.text s,rest) := by
  change scalar? _ = _
  rw [scalar?,string?_append hs,Option.map_some,Option.some_or]

theorem member?_append {read : Text → Option (Value × Text)} {s before after : Text} {v : Value}
    (hbefore : Spacing before) (hs : CharsWritten s t) (hafter : Spacing after)
    (hread : read u = some (v,rest)) :
    member? read (before ++ '"' :: (t ++ '"' :: (after ++ ':' :: u))) =
      some ((.text s,v),rest) := by
  have hname : spaced string? (before ++ '"' :: (t ++ '"' :: (after ++ ':' :: u))) =
      some (s,':' :: u) :=
    spaced_append hbefore (by rintro c ⟨⟩; rfl) hafter (by rintro c ⟨⟩; rfl) (string?_append hs _)
  simp only [member?,hname,hread,Option.bind_eq_bind,Option.bind_some,Option.map_some]

/-- What stands between brackets may go less deep by one. -/
theorem exists_below {opening close : Char} {depth : Nat}
    (h : (opening :: (t ++ [close])).length ≤ depth) : ∃ k, depth = k + 1 ∧ t.length ≤ k := by
  simp only [List.length_cons,List.length_append,List.length_nil] at h
  exact ⟨depth - 1,by omega,by omega⟩

/-- The decoder reads every part that has no more characters than it may go deep. -/
theorem Writes.decoded {part : Part} (h : Writes part t) {depth : Nat} (hd : t.length ≤ depth) :
    part.Decoded (depth + 1) t := by
  induction h generalizing depth with
  | null => exact fun rest _ => rfl
  | bool b => cases b <;> exact fun rest _ => rfl
  | int negative ht =>
    intro rest hrest
    rw [List.append_assoc]
    exact value?_number negative ht .none .none hrest _
  | @float n t u w x negative ht hu hw hne hx =>
    intro rest hrest
    have hassoc : signText negative ++ t ++ (u ++ w) ++ rest =
        signText negative ++ (t ++ (u ++ (w ++ rest))) := by simp only [List.append_assoc]
    rw [hassoc,value?_number negative ht hu hw hrest,if_neg hne,hx,Option.map_some]
  | text hs =>
    intro rest _
    rw [List.cons_append,List.append_assoc]
    exact value?_text hs _ rest
  | noItems ht =>
    intro rest _
    rw [List.cons_append,List.append_assoc,value?]
    exact congrArg _ (enclosed_spacing ht (by decide))
  | list hitems ih =>
    intro rest _
    obtain ⟨k,rfl,hk⟩ := exists_below hd
    rw [List.cons_append,List.append_assoc,value?]
    exact congrArg _ (enclosed_lists hitems.items_opens (.inl rfl) (ih hk) rest)
  | noMembers ht =>
    intro rest _
    rw [List.cons_append,List.append_assoc,value?]
    exact congrArg _ (enclosed_spacing ht (by decide))
  | mapping hmembers ih =>
    intro rest _
    obtain ⟨k,rfl,hk⟩ := exists_below hd
    rw [List.cons_append,List.append_assoc,value?]
    exact congrArg _ (enclosed_lists hmembers.members_opens (.inr rfl) (ih hk) rest)
  | element hbefore hv hafter ih =>
    intro rest hrest
    obtain ⟨c,r,rfl,hc⟩ := hv.exists_leads
    simp only [List.length_append] at hd
    rw [List.append_assoc,List.append_assoc]
    exact spaced_append hbefore (by simp [hc.1]) hafter hrest.not_spacing
      (ih (by omega) _ (hrest.ends_append hafter))
  | lastItem _ ih => exact lists_last (.inl rfl) (ih hd)
  | moreItems _ _ ihv ihvs =>
    simp only [List.length_append,List.length_cons] at hd
    exact lists_more (ihv (by omega)) (ihvs (by omega))
  | member hbefore hs hafter _ ih =>
    intro rest hrest
    simp only [List.length_append,List.length_cons] at hd
    simp only [List.append_assoc,List.cons_append]
    exact member?_append hbefore hs hafter (ih (by omega) rest hrest)
  | lastMember _ ih => exact lists_last (.inr rfl) (ih hd)
  | moreMembers _ _ ihentry ihentries =>
    simp only [List.length_append,List.length_cons] at hd
    exact lists_more (ihentry (by omega)) (ihentries (by omega))

/-- Every document is decoded as the value that it is for. -/
theorem decode?_eq_some {v : Value} (h : Document v t) : decode? t = some v := by
  have hread : spaced (value? (t.length + 1)) t = some (v,[]) := by
    have := Writes.decoded h (Nat.le_refl t.length) [] stops_nil
    rwa [List.append_nil] at this
  rw [decode?,hread]

/-- No text is a document for two values. -/
theorem Document.unique {v w : Value} (hv : Document v t) (hw : Document w t) : v = w :=
  Option.some.inj ((decode?_eq_some hv).symm.trans (decode?_eq_some hw))

end Stencil.Json

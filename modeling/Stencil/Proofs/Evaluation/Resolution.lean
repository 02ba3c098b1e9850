import Stencil.Evaluation.Scope

/-! # Where a path leads

A path resolves in a frame if the frame holds its root and every key leads on to something. A
look-up gives the value of the innermost frame in which the whole path resolves, unless a frame
that it tries before shows a list or tuple to a numeral with more digits than are read.
-/
namespace Stencil

/-- A run of one or more of the digits `0` to `9`, however long, that counts `n`. -/
structure Counts (key : Text) (n : Nat) : Prop where
  nonempty : key ≠ []
  digits : ∀ c ∈ key, c.isDigit = true
  value : Nat.ofDigitChars 10 key 0 = n

theorem natOfText?_eq_some_iff {key : Text} {n : Nat} : natOfText? key = some n ↔ Counts key n := by
  unfold natOfText?
  split
  · next h =>
    rw [Option.some.injEq]
    exact ⟨fun hn => ⟨h.1,List.all_eq_true.mp h.2,hn⟩,Counts.value⟩
  · next h =>
    refine iff_of_false nofun fun hc => h ?_
    exact ⟨hc.nonempty,List.all_eq_true.mpr hc.digits⟩

theorem counts_zeros (n : Nat) : Counts (List.replicate (n + 1) '0') 0 where
  nonempty := nofun
  digits _ hc := List.eq_of_mem_replicate hc ▸ rfl
  value := Nat.ofDigitChars_replicate_zero.trans (Nat.mul_zero _)

namespace Landing

theorem ofOption_eq_found_iff {o : Option α} {a : α} : ofOption o = .found a ↔ o = some a := by
  cases o <;> simp [ofOption]

theorem ofOption_ne_unreadable (o : Option α) : ofOption o ≠ .unreadable := by
  cases o <;> exact nofun

theorem bind_eq_found_iff {l : Landing α} {f : α → Landing β} {b : β} :
    l.bind f = .found b ↔ ∃ a, l = .found a ∧ f a = .found b := by
  cases l <;> simp [Landing.bind]

theorem bind_eq_unreadable_iff {l : Landing α} {f : α → Landing β} :
    l.bind f = .unreadable ↔ l = .unreadable ∨ ∃ a, l = .found a ∧ f a = .unreadable := by
  cases l <;> simp [Landing.bind]

end Landing

namespace Value

/-- The items of a list or tuple. -/
def items? : Value → Option (List Value)
  | list items => some items
  | tuple items => some items
  | _ => none

/-- A key leads from a mapping to what stands under just that text, and from a list or tuple to
the item that it counts off, but never to null. -/
inductive StepsTo (key : Text) : Value → Value → Prop where
  | entry {entries : Mapping} {w : Value} (h : Mapping.get? key entries = some w) (hw : w ≠ null) :
    StepsTo key (mapping entries) w
  | item {v w : Value} {items : List Value} {n : Nat} (hv : v.items? = some items)
    (hn : Counts key n) (h : items[n]? = some w) (hw : w ≠ null) : StepsTo key v w

/-- A list or tuple is asked for an item by a numeral that has more digits than are read. -/
def TooLong (key : Text) (v : Value) : Prop :=
  (∃ items, v.items? = some items) ∧ (∃ n, Counts key n) ∧ numeralLimit < key.length

/-- The keys lead from one value to another. -/
inductive Leads : List Text → Value → Value → Prop where
  | here (v : Value) : Leads [] v v
  | step {key : Text} {keys : List Text} {u v w : Value} (h : StepsTo key u v)
    (rest : Leads keys v w) : Leads (key :: keys) u w

/-- On the way along the keys a numeral is too long for the list or tuple it is put to. -/
inductive Overruns : List Text → Value → Prop where
  | here {key : Text} {v : Value} (h : TooLong key v) (keys : List Text) : Overruns (key :: keys) v
  | later {key : Text} {keys : List Text} {v w : Value} (h : StepsTo key v w)
    (rest : Overruns keys w) : Overruns (key :: keys) v

variable {key : Text} {keys : List Text} {v w : Value} {items : List Value}

theorem present_eq_found_iff : v.present = .found w ↔ v = w ∧ w ≠ null := by
  constructor
  · intro h
    cases v <;> cases h <;> exact ⟨rfl,nofun⟩
  · rintro ⟨rfl,hw⟩
    cases v <;> first | rfl | exact absurd rfl hw

theorem present_ne_unreadable (v : Value) : v.present ≠ .unreadable := by
  cases v <;> exact nofun

theorem itemUnder_of_counts {n : Nat} (h : Counts key n) (items : List Value) : itemUnder key items =
    if numeralLimit < key.length then .unreadable else .ofOption items[n]? := by
  rw [itemUnder,natOfText?_eq_some_iff.mpr h]

theorem itemUnder_of_not_counts (h : ∀ n, ¬Counts key n) (items : List Value) :
    itemUnder key items = .nowhere := by
  have hnone : natOfText? key = none :=
    Option.eq_none_iff_forall_ne_some.mpr fun n hn => h n (natOfText?_eq_some_iff.mp hn)
  rw [itemUnder,hnone]

theorem itemUnder_eq_found_iff : itemUnder key items = .found w ↔
    ∃ n, Counts key n ∧ ¬numeralLimit < key.length ∧ items[n]? = some w := by
  by_cases hkey : ∃ n, Counts key n
  · obtain ⟨n,hn⟩ := hkey
    rw [itemUnder_of_counts hn]
    by_cases hlong : numeralLimit < key.length
    · rw [if_pos hlong]
      exact iff_of_false nofun fun ⟨_,_,hshort,_⟩ => hshort hlong
    · rw [if_neg hlong,Landing.ofOption_eq_found_iff]
      refine ⟨fun hitem => ⟨n,hn,hlong,hitem⟩,fun ⟨m,hm,_,hitem⟩ => ?_⟩
      rw [← hn.value,hm.value]
      exact hitem
  · rw [itemUnder_of_not_counts (not_exists.mp hkey)]
    exact iff_of_false nofun fun ⟨n,hn,_⟩ => hkey ⟨n,hn⟩

theorem itemUnder_eq_unreadable_iff : itemUnder key items = .unreadable ↔
    (∃ n, Counts key n) ∧ numeralLimit < key.length := by
  by_cases hkey : ∃ n, Counts key n
  · obtain ⟨n,hn⟩ := hkey
    rw [itemUnder_of_counts hn]
    by_cases hlong : numeralLimit < key.length
    · rw [if_pos hlong]
      exact iff_of_true rfl ⟨⟨n,hn⟩,hlong⟩
    · rw [if_neg hlong]
      exact iff_of_false (Landing.ofOption_ne_unreadable _) fun h => hlong h.2
  · rw [itemUnder_of_not_counts (not_exists.mp hkey)]
    exact iff_of_false nofun fun h => hkey h.1

theorem step_of_items? (hv : v.items? = some items) (key : Text) :
    v.step key = (itemUnder key items).bind present := by
  cases v <;> cases hv <;> rfl

theorem step_eq_found_iff : v.step key = .found w ↔ StepsTo key v w ∧ ¬TooLong key v := by
  cases hv : v.items? with
  | some items =>
    rw [step_of_items? hv,Landing.bind_eq_found_iff]
    constructor
    · rintro ⟨u,hu,hw⟩
      obtain ⟨n,hn,hshort,hitem⟩ := itemUnder_eq_found_iff.mp hu
      obtain ⟨rfl,hw⟩ := present_eq_found_iff.mp hw
      exact ⟨.item hv hn hitem hw,fun hlong => hshort hlong.2.2⟩
    · rintro ⟨hstep,hlong⟩
      cases hstep with
      | entry => cases hv
      | @item _ _ items' n hv' hn hitem hw =>
        obtain rfl : items' = items := Option.some.inj (hv'.symm.trans hv)
        have hshort : ¬numeralLimit < key.length := fun h => hlong ⟨⟨items',hv⟩,⟨n,hn⟩,h⟩
        exact ⟨w,itemUnder_eq_found_iff.mpr ⟨n,hn,hshort,hitem⟩,present_eq_found_iff.mpr ⟨rfl,hw⟩⟩
  | none =>
    have hnot : ¬TooLong key v := by
      rintro ⟨⟨items,h⟩,_⟩
      cases hv.symm.trans h
    cases v with
    | mapping entries =>
      change (Landing.ofOption (Mapping.get? key entries)).bind present = .found w ↔ _
      rw [Landing.bind_eq_found_iff]
      constructor
      · rintro ⟨u,hu,hw⟩
        obtain ⟨rfl,hw⟩ := present_eq_found_iff.mp hw
        exact ⟨.entry (Landing.ofOption_eq_found_iff.mp hu) hw,hnot⟩
      · rintro ⟨hstep,_⟩
        cases hstep with
        | entry h hw =>
          exact ⟨w,Landing.ofOption_eq_found_iff.mpr h,present_eq_found_iff.mpr ⟨rfl,hw⟩⟩
        | item hv' => cases hv'
    | list | tuple => cases hv
    | _ =>
      refine iff_of_false nofun fun ⟨hstep,_⟩ => ?_
      cases hstep with
      | item hv' => cases hv'

theorem step_eq_unreadable_iff : v.step key = .unreadable ↔ TooLong key v := by
  cases hv : v.items? with
  | some items =>
    rw [step_of_items? hv,Landing.bind_eq_unreadable_iff,itemUnder_eq_unreadable_iff]
    constructor
    · rintro (h | ⟨u,_,hu⟩)
      · exact ⟨⟨items,hv⟩,h⟩
      · exact absurd hu (present_ne_unreadable u)
    · rintro ⟨_,h⟩
      exact Or.inl h
  | none =>
    have hnot : ¬TooLong key v := by
      rintro ⟨⟨items,h⟩,_⟩
      cases hv.symm.trans h
    refine iff_of_false ?_ hnot
    cases v with
    | mapping entries =>
      change (Landing.ofOption (Mapping.get? key entries)).bind present ≠ .unreadable
      rw [Ne,Landing.bind_eq_unreadable_iff]
      rintro (h | ⟨u,_,hu⟩)
      · exact Landing.ofOption_ne_unreadable _ h
      · exact present_ne_unreadable u hu
    | list | tuple => cases hv
    | _ => exact nofun

theorem StepsTo.unique {u : Value} (hshort : ¬TooLong key v) (h : StepsTo key v w)
    (h' : StepsTo key v u) : u = w :=
  Landing.found.inj ((step_eq_found_iff.mpr ⟨h',hshort⟩).symm.trans (step_eq_found_iff.mpr ⟨h,hshort⟩))

theorem follow_eq_unreadable_iff : v.follow keys = .unreadable ↔ Overruns keys v := by
  induction keys generalizing v with
  | nil => exact iff_of_false nofun nofun
  | cons key keys ih =>
    unfold follow
    rw [Landing.bind_eq_unreadable_iff,step_eq_unreadable_iff]
    constructor
    · rintro (hlong | ⟨w,hw,hrest⟩)
      · exact .here hlong keys
      · exact .later (step_eq_found_iff.mp hw).1 (ih.mp hrest)
    · intro hover
      by_cases hlong : TooLong key v
      · exact Or.inl hlong
      · cases hover with
        | here h => exact absurd h hlong
        | @later _ _ _ w h rest => exact Or.inr ⟨w,step_eq_found_iff.mpr ⟨h,hlong⟩,ih.mpr rest⟩

theorem follow_eq_found_iff : v.follow keys = .found w ↔ Leads keys v w ∧ ¬Overruns keys v := by
  induction keys generalizing v with
  | nil =>
    constructor
    · rintro ⟨⟩
      exact ⟨.here _,nofun⟩
    · rintro ⟨⟨⟩,_⟩
      rfl
  | cons key keys ih =>
    unfold follow
    rw [Landing.bind_eq_found_iff]
    constructor
    · rintro ⟨u,hu,hrest⟩
      obtain ⟨hstep,hlong⟩ := step_eq_found_iff.mp hu
      obtain ⟨hleads,hover⟩ := ih.mp hrest
      refine ⟨.step hstep hleads,fun h => ?_⟩
      cases h with
      | here h => exact hlong h
      | later h rest => exact hover (hstep.unique hlong h ▸ rest)
    · rintro ⟨hleads,hover⟩
      cases hleads with
      | @step _ _ _ u _ hstep rest =>
        have hlong : ¬TooLong key v := fun h => hover (.here h keys)
        exact ⟨u,step_eq_found_iff.mpr ⟨hstep,hlong⟩,ih.mpr ⟨rest,fun h => hover (.later hstep h)⟩⟩

theorem not_overruns_of_short (h : ∀ key ∈ keys, key.length ≤ numeralLimit) (v : Value) :
    ¬Overruns keys v := by
  intro hover
  induction hover with
  | @here key v hlong keys => exact absurd hlong.2.2 (Nat.not_lt.mpr (h key List.mem_cons_self))
  | later _ _ ih => exact ih fun key hkey => h key (List.mem_cons_of_mem _ hkey)

end Value

namespace Frame

/-- The frame holds something under the root, and the keys lead from there to a value. -/
def LeadsTo (root : Text) (keys : List Text) (frame : Frame) (w : Value) : Prop :=
  ∃ v, Mapping.get? root frame = some v ∧ v.Leads keys w

/-- The whole path resolves in the frame, which a path to null does not. -/
def Resolves (root : Text) (keys : List Text) (frame : Frame) (w : Value) : Prop :=
  LeadsTo root keys frame w ∧ w ≠ .null

def Overruns (root : Text) (keys : List Text) (frame : Frame) : Prop :=
  ∃ v, Mapping.get? root frame = some v ∧ v.Overruns keys

/-- The path does not resolve in the frame, and nothing in it keeps a search from going on. -/
def Passes (root : Text) (keys : List Text) (frame : Frame) : Prop :=
  ¬Overruns root keys frame ∧ ∀ w, ¬Resolves root keys frame w

/-- The frame is one of `frames`, and a search passes all frames before it. -/
def Tried (root : Text) (keys : List Text) (frames : List Frame) (frame : Frame) : Prop :=
  ∃ inner outer, frames = inner ++ frame :: outer ∧ ∀ f ∈ inner, Passes root keys f

variable {root : Text} {keys : List Text} {frame : Frame} {frames : List Frame} {w : Value}

theorem overruns_iff {v : Value} (hv : Mapping.get? root frame = some v) :
    Overruns root keys frame ↔ v.follow keys = .unreadable := by
  rw [Value.follow_eq_unreadable_iff]
  exact ⟨fun ⟨_,h,hover⟩ => Option.some.inj (h.symm.trans hv) ▸ hover,fun h => ⟨v,hv,h⟩⟩

theorem leadsTo_iff {v : Value} (hv : Mapping.get? root frame = some v) :
    LeadsTo root keys frame w ∧ ¬Overruns root keys frame ↔ v.follow keys = .found w := by
  rw [Value.follow_eq_found_iff,overruns_iff hv,Value.follow_eq_unreadable_iff]
  refine and_congr_left fun _ => ?_
  exact ⟨fun ⟨_,h,hleads⟩ => Option.some.inj (h.symm.trans hv) ▸ hleads,fun h => ⟨v,hv,h⟩⟩

theorem leadsTo_unique {u : Value} (hover : ¬Overruns root keys frame)
    (h : LeadsTo root keys frame w) (h' : LeadsTo root keys frame u) : u = w := by
  obtain ⟨v,hv,_⟩ := id h
  exact Landing.found.inj (((leadsTo_iff hv).mp ⟨h',hover⟩).symm.trans ((leadsTo_iff hv).mp ⟨h,hover⟩))

/-- A search through the frame passes it, finds the value of the path, or stops at a numeral. -/
theorem cases_search (root : Text) (keys : List Text) (frame : Frame) :
    Passes root keys frame ∨ (¬Overruns root keys frame ∧ ∃ w, Resolves root keys frame w) ∨
      Overruns root keys frame := by
  by_cases hover : Overruns root keys frame
  · exact Or.inr (Or.inr hover)
  · by_cases hres : ∃ w, Resolves root keys frame w
    · exact Or.inr (Or.inl ⟨hover,hres⟩)
    · exact Or.inl ⟨hover,not_exists.mp hres⟩

theorem passes_of_absent (h : Mapping.get? root frame = none) : Passes root keys frame := by
  constructor
  · rintro ⟨v,hv,_⟩
    cases h.symm.trans hv
  · rintro w ⟨⟨v,hv,_⟩,_⟩
    cases h.symm.trans hv

theorem firstReached_of_passes (h : Passes root keys frame) (frames : List Frame) :
    firstReached keys ((frame :: frames).filterMap (Mapping.get? root)) =
      firstReached keys (frames.filterMap (Mapping.get? root)) := by
  cases hv : Mapping.get? root frame with
  | none => rw [List.filterMap_cons_none hv]
  | some v =>
    rw [List.filterMap_cons_some hv]
    have hnowhere : (v.follow keys).bind Value.present = .nowhere := by
      cases hl : (v.follow keys).bind Value.present with
      | nowhere => rfl
      | found w =>
        obtain ⟨u,hu,hw⟩ := Landing.bind_eq_found_iff.mp hl
        obtain ⟨rfl,hw⟩ := Value.present_eq_found_iff.mp hw
        exact absurd ⟨((leadsTo_iff hv).mpr hu).1,hw⟩ (h.2 u)
      | unreadable =>
        obtain hu | ⟨u,_,hu⟩ := Landing.bind_eq_unreadable_iff.mp hl
        · exact absurd ((overruns_iff hv).mpr hu) h.1
        · exact absurd hu (Value.present_ne_unreadable u)
    rw [firstReached,hnowhere]

theorem firstReached_of_resolves (hover : ¬Overruns root keys frame)
    (h : Resolves root keys frame w) (frames : List Frame) :
    firstReached keys ((frame :: frames).filterMap (Mapping.get? root)) =
      .found (w,frames.filterMap (Mapping.get? root)) := by
  obtain ⟨hleads,hw⟩ := h
  obtain ⟨v,hv,_⟩ := id hleads
  rw [List.filterMap_cons_some hv,firstReached,(leadsTo_iff hv).mp ⟨hleads,hover⟩,Landing.bind,
    Value.present_eq_found_iff.mpr ⟨rfl,hw⟩]

theorem firstReached_of_overruns (h : Overruns root keys frame) (frames : List Frame) :
    firstReached keys ((frame :: frames).filterMap (Mapping.get? root)) = .unreadable := by
  obtain ⟨v,hv,_⟩ := id h
  rw [List.filterMap_cons_some hv,firstReached,(overruns_iff hv).mp h]
  rfl

theorem not_tried_nil : ¬Tried root keys [] frame := by
  rintro ⟨inner,outer,h,_⟩
  cases inner <;> cases h

theorem tried_cons {f : Frame} : Tried root keys (f :: frames) frame ↔
    frame = f ∨ (Passes root keys f ∧ Tried root keys frames frame) := by
  constructor
  · rintro ⟨_ | ⟨g,inner⟩,outer,h,hinner⟩
    · exact Or.inl (List.cons.inj h).1.symm
    · obtain ⟨rfl,hrest⟩ := List.cons.inj h
      obtain ⟨hf,hinner⟩ := List.forall_mem_cons.mp hinner
      exact Or.inr ⟨hf,inner,outer,hrest,hinner⟩
  · rintro (rfl | ⟨hf,inner,outer,rfl,hinner⟩)
    · exact ⟨[],frames,rfl,nofun⟩
    · exact ⟨f :: inner,outer,rfl,List.forall_mem_cons.mpr ⟨hf,hinner⟩⟩

/-- The search ends in the first frame that it does not pass, or behind the last one. -/
theorem firstReached_cases (root : Text) (keys : List Text) (frames : List Frame) :
    (∃ frame w outer, Tried root keys frames frame ∧ ¬Overruns root keys frame ∧
      Resolves root keys frame w ∧
      firstReached keys (frames.filterMap (Mapping.get? root)) = .found (w,outer)) ∨
    ((∀ frame ∈ frames, Passes root keys frame) ∧
      firstReached keys (frames.filterMap (Mapping.get? root)) = .nowhere) ∨
    (∃ frame, Tried root keys frames frame ∧ Overruns root keys frame ∧
      firstReached keys (frames.filterMap (Mapping.get? root)) = .unreadable) := by
  induction frames with
  | nil => exact Or.inr (Or.inl ⟨nofun,rfl⟩)
  | cons f frames ih =>
    obtain hpass | ⟨hover,w,hres⟩ | hover := cases_search root keys f
    · rw [firstReached_of_passes hpass]
      obtain ⟨frame,w,outer,htried,h⟩ | ⟨hall,h⟩ | ⟨frame,htried,h⟩ := ih
      · exact Or.inl ⟨frame,w,outer,tried_cons.mpr (Or.inr ⟨hpass,htried⟩),h⟩
      · exact Or.inr (Or.inl ⟨List.forall_mem_cons.mpr ⟨hpass,hall⟩,h⟩)
      · exact Or.inr (Or.inr ⟨frame,tried_cons.mpr (Or.inr ⟨hpass,htried⟩),h⟩)
    · exact Or.inl ⟨f,w,_,tried_cons.mpr (Or.inl rfl),hover,hres,firstReached_of_resolves hover hres frames⟩
    · exact Or.inr (Or.inr ⟨f,tried_cons.mpr (Or.inl rfl),hover,firstReached_of_overruns hover frames⟩)

theorem mem_of_tried (h : Tried root keys frames frame) : frame ∈ frames := by
  obtain ⟨inner,outer,rfl,_⟩ := h
  exact List.mem_append_right inner List.mem_cons_self

/-- Two frames that a search both tries and does not pass are the same one. -/
theorem tried_unique {f g : Frame} (hf : Tried root keys frames f) (hf' : ¬Passes root keys f)
    (hg : Tried root keys frames g) (hg' : ¬Passes root keys g) : f = g := by
  induction frames with
  | nil => exact absurd hf not_tried_nil
  | cons e frames ih =>
    obtain rfl | ⟨he,hf⟩ := tried_cons.mp hf
    · obtain rfl | ⟨he,_⟩ := tried_cons.mp hg
      · rfl
      · exact absurd he hf'
    · obtain rfl | ⟨_,hg⟩ := tried_cons.mp hg
      · exact absurd he hg'
      · exact ih hf hg

theorem not_passes_of_resolves (h : Resolves root keys frame w) : ¬Passes root keys frame :=
  fun hpass => hpass.2 w h

theorem not_passes_of_overruns (h : Overruns root keys frame) : ¬Passes root keys frame :=
  fun hpass => hpass.1 h

end Frame

namespace Scopes

theorem lookup_push_of_passes {root : Text} {keys : List Text} {frame : Frame}
    (h : Frame.Passes root keys frame) (s : Scopes) :
    (s.push frame).lookup root keys = s.lookup root keys := by
  have hroots : firstReached keys ((s.push frame).roots root) = firstReached keys (s.roots root) :=
    Frame.firstReached_of_passes h s.frames
  rw [lookup,lookup,hroots]

section
variable (s : Scopes) (root : Text) (keys : List Text)

theorem lookup_cases :
    (∃ frame w, Frame.Tried root keys s.frames frame ∧ ¬Frame.Overruns root keys frame ∧
      Frame.Resolves root keys frame w ∧ s.lookup root keys = .found w) ∨
    ((∀ frame ∈ s.frames, Frame.Passes root keys frame) ∧ s.lookup root keys = .found (.text [])) ∨
    (∃ frame, Frame.Tried root keys s.frames frame ∧ Frame.Overruns root keys frame ∧
      s.lookup root keys = .unreadable) := by
  unfold lookup roots
  obtain ⟨frame,w,outer,htried,hover,hres,h⟩ | ⟨hall,h⟩ | ⟨frame,htried,hover,h⟩ :=
    Frame.firstReached_cases root keys s.frames
  · exact Or.inl ⟨frame,w,htried,hover,hres,by rw [h]⟩
  · exact Or.inr (Or.inl ⟨hall,by rw [h]⟩)
  · exact Or.inr (Or.inr ⟨frame,htried,hover,by rw [h]⟩)

variable {s root keys}

theorem lookup_of_resolves {frame : Frame} {w : Value} (htried : Frame.Tried root keys s.frames frame)
    (hover : ¬Frame.Overruns root keys frame) (h : Frame.Resolves root keys frame w) :
    s.lookup root keys = .found w := by
  have hnot := Frame.not_passes_of_resolves h
  obtain ⟨f,u,hf,hfover,hu,hl⟩ | ⟨hall,_⟩ | ⟨f,hf,hfover,_⟩ := lookup_cases s root keys
  · obtain rfl := Frame.tried_unique hf (Frame.not_passes_of_resolves hu) htried hnot
    rw [hl,Frame.leadsTo_unique hover h.1 hu.1]
  · exact absurd (hall frame (Frame.mem_of_tried htried)) hnot
  · obtain rfl := Frame.tried_unique hf (Frame.not_passes_of_overruns hfover) htried hnot
    exact absurd hfover hover

theorem lookup_of_overruns {frame : Frame} (htried : Frame.Tried root keys s.frames frame)
    (h : Frame.Overruns root keys frame) : s.lookup root keys = .unreadable := by
  have hnot := Frame.not_passes_of_overruns h
  obtain ⟨f,u,hf,hfover,hu,_⟩ | ⟨hall,_⟩ | ⟨_,_,_,hl⟩ := lookup_cases s root keys
  · obtain rfl := Frame.tried_unique hf (Frame.not_passes_of_resolves hu) htried hnot
    exact absurd h hfover
  · exact absurd (hall frame (Frame.mem_of_tried htried)) hnot
  · exact hl

theorem lookup_of_passes (h : ∀ frame ∈ s.frames, Frame.Passes root keys frame) :
    s.lookup root keys = .found (.text []) := by
  obtain ⟨f,u,hf,_,hu,_⟩ | ⟨_,hl⟩ | ⟨f,hf,hfover,_⟩ := lookup_cases s root keys
  · exact absurd (h f (Frame.mem_of_tried hf)) (Frame.not_passes_of_resolves hu)
  · exact hl
  · exact absurd (h f (Frame.mem_of_tried hf)) (Frame.not_passes_of_overruns hfover)

end

/-- A look-up tries the frames from the innermost on and gives the value of the first one in which
the whole path resolves, or the empty text if there is none. It gives no value just if it comes
before that to a numeral with more digits than are read, which cannot be with short keys. A frame
in which the path does not resolve makes no difference to the frames below it, and one in which
it does hides them. -/
theorem lookup_innermost (s : Scopes) (root : Text) (keys : List Text) :
    (∀ w, s.lookup root keys = .found w ↔
      (∃ frame, Frame.Tried root keys s.frames frame ∧ ¬Frame.Overruns root keys frame ∧
        Frame.Resolves root keys frame w) ∨
      ((∀ frame ∈ s.frames, Frame.Passes root keys frame) ∧ w = .text [])) ∧
    ((¬∃ w, s.lookup root keys = .found w) ↔
      ∃ frame, Frame.Tried root keys s.frames frame ∧ Frame.Overruns root keys frame) ∧
    ((∀ key ∈ keys, key.length ≤ numeralLimit) → ∀ frame, ¬Frame.Overruns root keys frame) ∧
    ∀ frame, (Frame.Passes root keys frame → (s.push frame).lookup root keys = s.lookup root keys) ∧
      ∀ w, ¬Frame.Overruns root keys frame → Frame.Resolves root keys frame w →
        (s.push frame).lookup root keys = .found w := by
  refine ⟨fun w => ⟨fun h => ?_,?_⟩,⟨fun h => ?_,?_⟩,?_,fun frame => ⟨fun h =>
    lookup_push_of_passes h s,fun w hover h => ?_⟩⟩
  · obtain ⟨frame,u,htried,hover,hres,hl⟩ | ⟨hall,hl⟩ | ⟨_,_,_,hl⟩ := lookup_cases s root keys
    · obtain rfl := Landing.found.inj (hl.symm.trans h)
      exact Or.inl ⟨frame,htried,hover,hres⟩
    · exact Or.inr ⟨hall,(Landing.found.inj (hl.symm.trans h)).symm⟩
    · cases hl.symm.trans h
  · rintro (⟨frame,htried,hover,hres⟩ | ⟨hall,rfl⟩)
    · exact lookup_of_resolves htried hover hres
    · exact lookup_of_passes hall
  · obtain ⟨_,w,_,_,_,hl⟩ | ⟨_,hl⟩ | ⟨frame,htried,hover,_⟩ := lookup_cases s root keys
    · exact absurd ⟨w,hl⟩ h
    · exact absurd ⟨_,hl⟩ h
    · exact ⟨frame,htried,hover⟩
  · rintro ⟨frame,htried,hover⟩ ⟨w,hw⟩
    cases (lookup_of_overruns htried hover).symm.trans hw
  · rintro hshort frame ⟨v,_,hover⟩
    exact Value.not_overruns_of_short hshort v hover
  · exact lookup_of_resolves (Frame.tried_cons.mpr (Or.inl rfl)) hover h

/-- A null in the inner frame does not hide the item further out, whose index starts with a zero. -/
theorem lookup_innermost_of_null :
    (Scopes.lookup ['l'] [['0','1']] ⟨[(.text ['l'],.mapping [(.text ['0','1'],.null)])],
      [[(.text ['l'],.list [.text ['a'],.text ['b']])]]⟩ = .found (.text ['b'])) ∧
    ∃ frame, Frame.Tried ['l'] [['0','1']] [[(.text ['l'],.mapping [(.text ['0','1'],.null)])],
        [(.text ['l'],.list [.text ['a'],.text ['b']])]] frame ∧
      ¬Frame.Overruns ['l'] [['0','1']] frame ∧
      Frame.Resolves ['l'] [['0','1']] frame (.text ['b']) := by
  obtain ⟨hfound,_,hshort,_⟩ := lookup_innermost
    ⟨[(.text ['l'],.mapping [(.text ['0','1'],.null)])],
      [[(.text ['l'],.list [.text ['a'],.text ['b']])]]⟩ ['l'] [['0','1']]
  refine ⟨rfl,?_⟩
  obtain ⟨frame,htried,_,hres⟩ | ⟨_,h⟩ := (hfound (.text ['b'])).mp rfl
  · exact ⟨frame,htried,hshort (by decide) frame,hres⟩
  · cases h

/-- A numeral of 4301 zeros counts zero, and still the first item is not given. -/
theorem lookup_overlong :
    Frame.Resolves ['l'] [List.replicate 4301 '0'] [(.text ['l'],.list [.text ['a']])] (.text ['a']) ∧
    (Scopes.start [(.text ['l'],.list [.text ['a']])]).lookup ['l'] [List.replicate 4301 '0'] =
      .unreadable := by
  have hcounts : Counts (List.replicate 4301 '0') 0 := counts_zeros 4300
  have hlong : Value.TooLong (List.replicate 4301 '0') (.list [.text ['a']]) :=
    ⟨⟨_,rfl⟩,⟨0,hcounts⟩,by rw [List.length_replicate]; decide⟩
  have htried : Frame.Tried ['l'] [List.replicate 4301 '0'] [[],[(.text ['l'],.list [.text ['a']])]]
      [(.text ['l'],.list [.text ['a']])] :=
    ⟨[[]],[],rfl,List.forall_mem_singleton.mpr (Frame.passes_of_absent rfl)⟩
  constructor
  · exact ⟨⟨_,rfl,.step (.item rfl hcounts rfl nofun) (.here _)⟩,nofun⟩
  · exact lookup_of_overruns htried ⟨_,rfl,.here hlong []⟩

end Scopes

end Stencil

import Stencil.Evaluation.Block

/-! # What evaluation does to the scopes

The body of a conditional or loop is evaluated in a frame that is closed behind it, so that
nothing is left of what it sets. A sequence of blocks writes into the innermost frame, under
the names that it sets itself, and into no other frame.
-/
namespace Stencil

theorem Run.result_bind_eq_ok {r : Run α} {f : α → Run β} {b : β} :
    (r >>= f).result = .ok b ↔ ∃ a, r.result = .ok a ∧ (f a).result = .ok b := by
  rcases r with ⟨problem | a,events⟩
  · constructor
    · intro h
      cases h
    · rintro ⟨a,ha,_⟩
      cases ha
  · constructor
    · intro h
      exact ⟨a,rfl,h⟩
    · rintro ⟨_,⟨⟩,hf⟩
      exact hf

theorem Run.result_bind_pure (r : Run α) (f : α → β) :
    (r >>= fun a => pure (f a)).result = r.result.map f := by
  rcases r with ⟨_ | a,events⟩ <;> rfl

/-- The text of an argument is that of its value, if that has one. -/
theorem Arg.evalText_of_ok {env : Env} {arg : Arg} {v : Value} (h : (arg.eval env).result = .ok v) :
    (arg.evalText env).result = v.display.mapError .unwritable :=
  congrArg Run.result (Run.bind_of_ok h _)

/-- A text equals no value but itself. -/
theorem Value.equal_text (v : Value) (t : Text) :
    (isSameNaN v (.text t) || v.equal (.text t)) = v.isText t := by
  cases v with
  | float x => cases x <;> simp [isSameNaN,equal,isText,numbersEqual,toNumber?]
  | _ => simp [isSameNaN,equal,isText,numbersEqual,toNumber?]

namespace Mapping
variable {name : Text} {names : List Text}

theorem insert_cons (name : Text) (v key w : Value) (m : Mapping) :
    insert (.text name) v ((key,w) :: m) =
      if key.isText name then (key,v) :: m else (key,w) :: insert (.text name) v m := by
  rw [insert,Value.equal_text]

/-- The entries that stand under none of the names. -/
def others (names : List Text) (m : Mapping) : Mapping :=
  m.filter fun entry => !names.any (entry.1.isText ·)

theorem others_nil (m : Mapping) : others [] m = m := List.filter_eq_self.mpr fun _ _ => rfl

theorem others_cons (entry : Value × Value) (m : Mapping) : others names (entry :: m) =
    if names.any (entry.1.isText ·) then others names m else entry :: others names m := by
  unfold others
  rw [List.filter_cons]
  cases names.any (entry.1.isText ·) <;> rfl

theorem any_isText (h : name ∈ names) {k : Value} (hk : k.isText name = true) :
    names.any (k.isText ·) = true :=
  List.any_eq_true.mpr ⟨name,h,hk⟩

theorem others_insert (h : name ∈ names) (v : Value) (m : Mapping) :
    others names (insert (.text name) v m) = others names m := by
  induction m with
  | nil =>
    have hname : (Value.text name).isText name = true := beq_self_eq_true name
    rw [insert,others_cons,if_pos (any_isText h hname)]
  | cons entry m ih =>
    rcases entry with ⟨k,w⟩
    rw [insert_cons]
    by_cases hk : k.isText name = true
    · rw [if_pos hk,others_cons,others_cons,if_pos (any_isText h hk),if_pos (any_isText h hk)]
    · rw [if_neg hk,others_cons,others_cons,ih]

/-- A name that is not among `names` stands for what it stood for. -/
theorem get?_others (h : name ∉ names) (m : Mapping) : get? name (others names m) = get? name m := by
  induction m with
  | nil => rfl
  | cons entry m ih =>
    rcases entry with ⟨k,w⟩
    rw [others_cons,get?]
    by_cases hany : names.any (k.isText ·) = true
    · have hk : ¬k.isText name = true := by
        intro hk
        obtain ⟨other,hmem,hother⟩ := List.any_eq_true.mp hany
        cases k with
        | text t => exact h (eq_of_beq hk ▸ eq_of_beq hother ▸ hmem)
        | _ => cases hk
      rw [if_pos hany,if_neg hk,ih]
    · rw [if_neg hany,get?,ih]

end Mapping

namespace Scopes

/-- The scopes `t` are `s` but for what the innermost frame holds under `names`. -/
structure SameBut (names : List Text) (s t : Scopes) : Prop where
  outer : t.outer = s.outer
  inner : Mapping.others names t.inner = Mapping.others names s.inner

namespace SameBut
variable {names : List Text} {s t u : Scopes}

theorem refl (names : List Text) (s : Scopes) : SameBut names s s := ⟨rfl,rfl⟩

theorem trans (h : SameBut names s t) (h' : SameBut names t u) : SameBut names s u :=
  ⟨h'.outer.trans h.outer,h'.inner.trans h.inner⟩

theorem eq_of_nil (h : SameBut [] s t) : t = s := by
  obtain ⟨houter,hinner⟩ := h
  rw [Mapping.others_nil,Mapping.others_nil] at hinner
  cases s
  cases t
  cases houter
  cases hinner
  rfl

theorem depth_eq (h : SameBut names s t) : t.depth = s.depth := by
  unfold depth frames
  rw [h.outer]
  rfl

end SameBut

theorem sameBut_set {name : Text} {names : List Text} (h : name ∈ names) (v : Value) (s : Scopes) :
    SameBut names s (s.set name v) :=
  ⟨rfl,Mapping.others_insert h v s.inner⟩

/-- Closing a frame brings back the scopes it was opened in, whatever was set in it. -/
theorem pop_of_sameBut {names : List Text} {frame : Frame} {s t : Scopes}
    (h : SameBut names (s.push frame) t) : t.pop = s := by
  have houter : t.outer = s.inner :: s.outer := h.outer
  unfold pop
  rw [houter]

end Scopes

namespace Rendering
open Scopes

/-- Where it comes to an end, nothing has changed but the innermost frame under `names`. -/
def Keeps (names : List Text) (r : Rendering) : Prop :=
  ∀ ⦃s t fragments⦄, (r s).result = .ok (t,fragments) → SameBut names s t

variable {names : List Text} {first second body : Rendering}

theorem keeps_pure (names : List Text) (fragments : List Fragment) :
    Keeps names fun s => pure (s,fragments) := by
  rintro s _ _ ⟨⟩
  exact .refl names s

theorem keeps_bind {r : Scopes → Run α} {f : α → Rendering} (h : ∀ a, Keeps names (f a)) :
    Keeps names fun s => r s >>= fun a => f a s := by
  intro s t fragments ht
  obtain ⟨a,_,ha⟩ := Run.result_bind_eq_ok.mp ht
  exact h a ha

theorem Keeps.andThen (h : Keeps names first) (h' : Keeps names second) :
    Keeps names (andThen first second) := by
  intro s u fragments hu
  obtain ⟨⟨t,before⟩,ht,hu⟩ := Run.result_bind_eq_ok.mp hu
  obtain ⟨⟨u',after⟩,hu',hpure⟩ := Run.result_bind_eq_ok.mp hu
  cases hpure
  exact (h ht).trans (h' hu')

/-- What a body sets is gone when its frame is closed. -/
theorem Keeps.within (h : Keeps names body) (frame : Frame) (names' : List Text) :
    Keeps names' (within frame body) := by
  intro s t fragments ht
  obtain ⟨⟨u,inside⟩,hu,hpure⟩ := Run.result_bind_eq_ok.mp ht
  cases hpure
  rw [pop_of_sameBut (h hu)]
  exact .refl names' s

theorem Keeps.forEach (h : Keeps names body) (name : Text) (vs : List Value) (names' : List Text) :
    Keeps names' (forEach name body vs) := by
  induction vs with
  | nil => exact keeps_pure names' []
  | cons v vs ih => exact (h.within _ names').andThen ih

theorem Keeps.forRange (h : Keeps names body) (name : Text) (last : Number) (rounds : Nat)
    (current : Number) (names' : List Text) :
    Keeps names' (forRange name body last rounds current) := by
  induction rounds generalizing current with
  | zero => exact keeps_pure names' []
  | succ rounds ih =>
    unfold Rendering.forRange
    by_cases hlast : current.below last = true
    · rw [if_pos hlast]
      exact (h.within _ names').andThen (ih current.succ)
    · rw [if_neg hlast]
      exact keeps_pure names' []

theorem Keeps.loop (h : Keeps names body) (methods : Registry) (name : Text) (source : LoopSource)
    (names' : List Text) : Keeps names' (source.run methods name body) := by
  cases source with
  | items args => exact keeps_bind fun vs => h.forEach name vs names'
  | range first last =>
    refine keeps_bind fun a => keeps_bind fun b => ?_
    cases Number.ofText? a with
    | none => exact keeps_bind fun _ => keeps_pure names' []
    | some p =>
      cases Number.ofText? b with
      | none => exact keeps_bind fun _ => keeps_pure names' []
      | some q => exact h.forRange name q _ p names'

end Rendering

def Block.setName? : Block → Option Text
  | .set name _ => some name
  | _ => none

/-- The names that a sequence sets itself, not in a body of one of its blocks. -/
def setNames (blocks : List Block) : List Text := blocks.filterMap Block.setName?

theorem mem_setNames_of_head {block : Block} {name : Text} (h : block.setName? = some name)
    (blocks : List Block) : name ∈ setNames (block :: blocks) :=
  List.mem_filterMap.mpr ⟨block,List.mem_cons_self,h⟩

theorem setNames_subset_cons (block : Block) (blocks : List Block) :
    setNames blocks ⊆ setNames (block :: blocks) := by
  intro name h
  obtain ⟨other,hmem,hname⟩ := List.mem_filterMap.mp h
  exact List.mem_filterMap.mpr ⟨other,List.mem_cons_of_mem block hmem,hname⟩

section Blocks
open Rendering
variable (methods : Registry)

mutual

theorem Block.keeps_eval {names : List Text} : ∀ block : Block,
    (∀ name, block.setName? = some name → name ∈ names) → Keeps names (block.eval methods)
  | .text t, _ => keeps_pure names [.string t]
  | .branch condition body, _ => by
    -- what a body sets goes into a frame of its own, so its names need not be among `names`
    have hbody := keeps_evalBlocks body (List.Subset.refl (setNames body))
    refine keeps_bind fun holds => ?_
    cases holds
    · exact keeps_pure names []
    · exact hbody.within [] names
  | .loop name source body, _ =>
    (keeps_evalBlocks body (List.Subset.refl (setNames body))).loop methods name source names
  | .set name arg, h => by
    refine keeps_bind fun v => ?_
    rintro s _ _ ⟨⟩
    exact Scopes.sameBut_set (h name rfl) v s
  | .conf key arg, _ => keeps_bind fun t => keeps_pure names [.conf key t]
  | .print arg, _ => keeps_bind fun t => keeps_pure names [.value t]
  | .trim direction, _ => keeps_pure names [.trim direction]
  | .newline, _ => keeps_pure names [.value ['\n']]
  | .foreign kind, _ => by
    rintro s t fragments ⟨⟩

theorem keeps_evalBlocks {names : List Text} : ∀ blocks : List Block,
    setNames blocks ⊆ names → Keeps names (evalBlocks methods blocks)
  | [], _ => keeps_pure names []
  | block :: blocks, h => by
    have hblock : Keeps names (block.eval methods) :=
      Block.keeps_eval block fun name hname => h (mem_setNames_of_head hname blocks)
    have hblocks := keeps_evalBlocks blocks (List.Subset.trans (setNames_subset_cons block blocks) h)
    exact hblock.andThen hblocks

end

end Blocks

/-- When a sequence of blocks has been evaluated, the frames below the innermost one are what
they were, and so is the innermost one but for the entries under the names that the sequence
itself sets. One that sets none leaves the scopes as they were. -/
theorem evalBlocks_scopes {methods : Registry} {blocks : List Block} {s t : Scopes}
    {fragments : List Fragment} (h : (evalBlocks methods blocks s).result = .ok (t,fragments)) :
    t.depth = s.depth ∧ t.outer = s.outer ∧
      Mapping.others (setNames blocks) t.inner = Mapping.others (setNames blocks) s.inner ∧
      (∀ name, name ∉ setNames blocks → Mapping.get? name t.inner = Mapping.get? name s.inner) ∧
      (setNames blocks = [] → t = s) := by
  have hkeep := keeps_evalBlocks methods blocks (List.Subset.refl _) h
  refine ⟨hkeep.depth_eq,hkeep.outer,hkeep.inner,?_,?_⟩
  · intro name hname
    rw [← Mapping.get?_others hname,hkeep.inner,Mapping.get?_others hname]
  · intro hnone
    rw [hnone] at hkeep
    exact hkeep.eq_of_nil

theorem evalBlocks_scopes_of_loop : ∃ t : Scopes,
    (evalBlocks (fun _ _ => none) [.set ['x'] (.ofText ['1']),
      .loop ['i'] (.items [.ofText ['a'],.ofText ['b']])
        [.set ['x'] (.mk (.variable ['i'] []) []),.print (.mk (.variable ['x'] []) [])]]
      (.start [(.text ['x'],.text ['0'])])).result = .ok (t,[.value ['a'],.value ['b']]) ∧
    t.depth = 2 ∧ t.outer = [[(.text ['x'],.text ['0'])]] ∧ Mapping.get? ['i'] t.inner = none := by
  have hrun : (evalBlocks (fun _ _ => none) [.set ['x'] (.ofText ['1']),
      .loop ['i'] (.items [.ofText ['a'],.ofText ['b']])
        [.set ['x'] (.mk (.variable ['i'] []) []),.print (.mk (.variable ['x'] []) [])]]
      (.start [(.text ['x'],.text ['0'])])).result =
      .ok (⟨[(.text ['x'],.text ['1'])],[[(.text ['x'],.text ['0'])]]⟩,[.value ['a'],.value ['b']]) := by
    rfl
  obtain ⟨hdepth,houter,_,hothers,_⟩ := evalBlocks_scopes hrun
  exact ⟨_,hrun,hdepth,houter,hothers ['i'] (by decide)⟩

end Stencil

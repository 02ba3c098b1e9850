import Mathlib.Data.List.Nodup
import Mathlib.Data.List.Perm.Subperm
import Stencil.Proofs.Evaluation.Scoping
import Stencil.Proofs.Json.Display

/-! # Equality as a relation

Plain values are equal if they are of one kind, with truth values among the numbers, and if equal
values stand under every index and under every name. From this view of the comparison, in which
neither side comes first, it follows that equality is an equivalence that is kept inside lists and
mappings and does not see the order of entries. A condition with `in` asks for nothing else.
-/
namespace Stencil

open Value

namespace Mapping
variable {name : Text} {v : Value} {m : Mapping}

theorem mem_of_get? (h : get? name m = some v) : (text name,v) ∈ m := by
  induction m with
  | nil => cases h
  | cons entry m ih =>
    rcases entry with ⟨key,w⟩
    by_cases hkey : key = text name
    · simp only [get?,isText_iff,hkey,if_true] at h
      cases h
      exact hkey ▸ List.mem_cons_self
    · simp only [get?,isText_iff,hkey,if_false] at h
      exact List.mem_cons_of_mem _ (ih h)

theorem get?_append (name : Text) (es fs : Mapping) :
    get? name (es ++ fs) = (get? name es).or (get? name fs) := by
  induction es with
  | nil => rfl
  | cons entry es ih =>
    rw [List.cons_append,get?,get?,ih]
    split <;> rfl

end Mapping

namespace Value
variable {v w u : Value} {name : Text} {items : List Value} {entries es fs : Mapping}

theorem arePlain_iff : arePlain items = true ↔ ∀ v ∈ items, v.isPlain = true := by
  induction items with
  | nil => simp [arePlain]
  | cons item items ih => simp [arePlain,ih]

theorem entriesPlain_iff : entriesPlain entries = true ↔
    (∀ entry ∈ entries, (∃ name, entry.1 = text name) ∧ entry.2.isPlain = true) ∧
      (entries.map Prod.fst).Nodup := by
  induction entries with
  | nil => simp [entriesPlain]
  | cons entry entries ih =>
    rcases entry with ⟨key,v⟩
    cases key with
    | text name =>
      rw [entriesPlain,Bool.and_eq_true,Bool.and_eq_true,Option.isNone_iff_eq_none,
        Mapping.get?_eq_none_iff,ih,List.forall_mem_cons,List.map_cons,List.nodup_cons]
      constructor
      · rintro ⟨⟨hname,hv⟩,hentries,hnodup⟩
        exact ⟨⟨⟨⟨name,rfl⟩,hv⟩,hentries⟩,hname,hnodup⟩
      · rintro ⟨⟨⟨-,hv⟩,hentries⟩,hname,hnodup⟩
        exact ⟨⟨hname,hv⟩,hentries,hnodup⟩
    | _ => simp [entriesPlain]

/-- Where keys are distinct, each entry is found under its own. -/
theorem get?_eq_some_iff (h : entriesPlain entries = true) :
    Mapping.get? name entries = some v ↔ (text name,v) ∈ entries := by
  refine ⟨Mapping.mem_of_get?,fun hmem => ?_⟩
  induction entries with
  | nil => cases hmem
  | cons entry entries ih =>
    obtain ⟨other,hother,hnone,-,hentries⟩ := exists_of_entriesPlain h
    obtain rfl | hmem := List.mem_cons.mp hmem
    · simp [Mapping.get?,isText_iff]
    · have hget := ih hentries hmem
      have hne : other ≠ name := by
        rintro rfl
        rw [hnone] at hget
        cases hget
      simpa [Mapping.get?,isText_iff,hother,hne] using hget

/-- A place in a list or tuple, or in a mapping. -/
inductive Slot where
  | item (index : Nat)
  | entry (name : Text)

def at? : Slot → Value → Option Value
  | .item i, list items => items[i]?
  | .item i, tuple items => items[i]?
  | .entry name, mapping entries => Mapping.get? name entries
  | _, _ => none

/-- What is left of a value without its parts. Truth values are the numbers zero and one. -/
def shell : Value → Value
  | bool b => int b.toNat
  | list _ => list []
  | tuple _ => tuple []
  | mapping _ => mapping []
  | v => v

abbrev Equal (v w : Value) : Prop := v.equal w = true

theorem forall_slot {p : Slot → Prop} :
    (∀ slot, p slot) ↔ (∀ i, p (.item i)) ∧ ∀ name, p (.entry name) := by
  constructor
  · intro h
    exact ⟨fun i => h (.item i),fun name => h (.entry name)⟩
  · rintro ⟨hitem,hentry⟩ (i | name)
    · exact hitem i
    · exact hentry name

theorem plain_of_at? (h : v.isPlain = true) {slot : Slot} (hw : v.at? slot = some w) :
    w.isPlain = true := by
  cases v with
  | list items | tuple items =>
    cases slot with
    | item i => exact arePlain_iff.mp h w (List.mem_of_getElem? hw)
    | entry name => cases hw
  | mapping entries =>
    cases slot with
    | item i => cases hw
    | entry name => exact ((entriesPlain_iff.mp h).1 _ (Mapping.mem_of_get? hw)).2
  | _ => cases slot <;> cases hw

/-- What holds of a plain value as soon as it holds of its parts holds of every plain value. -/
theorem plain_induct {motive : (v : Value) → v.isPlain = true → Prop}
    (step : ∀ v h, (∀ slot w, (hw : v.at? slot = some w) → motive w (plain_of_at? h hw)) →
      motive v h)
    (v : Value) (h : v.isPlain = true) : motive v h := by
  induction v with
  | list items ih | tuple items ih =>
    refine step _ h fun slot w hw => ?_
    cases slot with
    | item i => exact ih w (List.mem_of_getElem? hw) _
    | entry name => cases hw
  | mapping entries ih =>
    refine step _ h fun slot w hw => ?_
    cases slot with
    | item i => cases hw
    | entry name => exact ih _ (Mapping.mem_of_get? hw) _
  | _ => exact step _ h fun slot w hw => by cases slot <;> cases hw

theorem isSameNaN_of_plain (h : v.isPlain = true) (w : Value) : isSameNaN v w = false := by
  cases v with
  | float x => cases h
  | _ => rfl

theorem text_equal (t : Text) (v : Value) :
    (isSameNaN (text t) v || (text t).equal v) = v.isText t := by
  cases v <;> simp [isSameNaN,equal,isText,numbersEqual,toNumber?,eq_comm]

theorem itemsEqual_iff {xs ys : List Value} (h : arePlain xs = true) :
    itemsEqual xs ys = true ↔ ∀ i : Nat, Option.Rel Equal xs[i]? ys[i]? := by
  induction xs generalizing ys with
  | nil =>
    cases ys with
    | nil => simp [itemsEqual]
    | cons y ys => simpa [itemsEqual] using ⟨0,by simp⟩
  | cons x xs ih =>
    obtain ⟨hx,hxs⟩ := Bool.and_eq_true_iff.mp h
    cases ys with
    | nil => simpa [itemsEqual] using ⟨0,by simp⟩
    | cons y ys =>
      rw [itemsEqual,isSameNaN_of_plain hx,Bool.false_or,Bool.and_eq_true,ih hxs]
      refine Iff.trans ?_ Nat.and_forall_add_one
      simp

theorem entriesIn_iff (h : entriesPlain es = true) (fs : Mapping) : entriesIn es fs = true ↔
    ∀ name v, (text name,v) ∈ es → ∃ w, (text name,w) ∈ fs ∧ Equal v w := by
  induction es with
  | nil => simp [entriesIn]
  | cons entry es ih =>
    rcases entry with ⟨key,v⟩
    obtain ⟨name,rfl,-,hv,hes⟩ := exists_of_entriesPlain h
    have hany : (fs.any fun entry => (isSameNaN (text name) entry.1 || (text name).equal entry.1) &&
        (isSameNaN v entry.2 || v.equal entry.2)) = true ↔ ∃ w, (text name,w) ∈ fs ∧ Equal v w := by
      simp [text_equal,isText_iff,isSameNaN_of_plain hv]
    rw [entriesIn,Bool.and_eq_true,hany,ih hes]
    constructor
    · rintro ⟨hfirst,hrest⟩ other u hmem
      obtain ⟨⟨⟩⟩ | hmem := List.mem_cons.mp hmem
      · exact hfirst
      · exact hrest other u hmem
    · intro hall
      exact ⟨hall name v List.mem_cons_self,fun other u hmem => hall other u (List.mem_cons_of_mem _ hmem)⟩

theorem keys_subset (hes : entriesPlain es = true)
    (h : ∀ name, Mapping.get? name fs = none → Mapping.get? name es = none) :
    es.map Prod.fst ⊆ fs.map Prod.fst := by
  intro key hkey
  obtain ⟨entry,hmem,rfl⟩ := List.mem_map.mp hkey
  obtain ⟨⟨name,hname⟩,-⟩ := (entriesPlain_iff.mp hes).1 entry hmem
  rw [hname]
  by_contra hnot
  have hnone := h name (Mapping.get?_eq_none_iff.mpr hnot)
  exact Mapping.get?_eq_none_iff.mp hnone (hname ▸ hkey)

theorem keys_subperm (hes : entriesPlain es = true)
    (h : ∀ name, Mapping.get? name fs = none → Mapping.get? name es = none) :
    List.Subperm (es.map Prod.fst) (fs.map Prod.fst) :=
  List.subperm_of_subset (entriesPlain_iff.mp hes).2 (keys_subset hes h)

theorem eq_none_iff_of_rel {x y : Option Value} (h : Option.Rel Equal x y) : x = none ↔ y = none := by
  cases h <;> simp

/-- Mappings are equal if they have equal values under every name. As many entries on both sides
leave no further names on the right. -/
theorem equal_mapping_iff (hes : entriesPlain es = true) (hfs : entriesPlain fs = true) :
    Equal (mapping es) (mapping fs) ↔
      ∀ name, Option.Rel Equal (Mapping.get? name es) (Mapping.get? name fs) := by
  rw [Equal,equal,Bool.and_eq_true,beq_iff_eq,entriesIn_iff hes]
  constructor
  · rintro ⟨hlength,hin⟩ name
    have hsome : ∀ name v, Mapping.get? name es = some v →
        ∃ w, Mapping.get? name fs = some w ∧ Equal v w := by
      intro name v hv
      obtain ⟨w,hw,hvw⟩ := hin name v (Mapping.mem_of_get? hv)
      exact ⟨w,(get?_eq_some_iff hfs).mpr hw,hvw⟩
    cases hv : Mapping.get? name es with
    | some v =>
      obtain ⟨w,hw,hvw⟩ := hsome name v hv
      rw [hw]
      exact .some hvw
    | none =>
      have hperm : (es.map Prod.fst).Perm (fs.map Prod.fst) := by
        refine (keys_subperm hes fun other hnone => ?_).perm_of_length_le (by simp [hlength])
        by_contra hne
        obtain ⟨v,hv⟩ := Option.ne_none_iff_exists'.mp hne
        obtain ⟨w,hw,-⟩ := hsome other v hv
        simp [hnone] at hw
      have hnone : Mapping.get? name fs = none := by
        rw [Mapping.get?_eq_none_iff,← hperm.mem_iff,← Mapping.get?_eq_none_iff,hv]
      rw [hnone]
      exact .none
  · intro hrel
    have hle := (keys_subperm hes fun name => (eq_none_iff_of_rel (hrel name)).mpr).length_le
    have hge := (keys_subperm hfs fun name => (eq_none_iff_of_rel (hrel name)).mp).length_le
    rw [List.length_map,List.length_map] at hle hge
    refine ⟨Nat.le_antisymm hle hge,fun name v hmem => ?_⟩
    have hv := (get?_eq_some_iff hes).mpr hmem
    cases hw : Mapping.get? name fs with
    | none => simp [(eq_none_iff_of_rel (hrel name)).mpr hw] at hv
    | some w => exact ⟨w,Mapping.mem_of_get? hw,by simpa [hv,hw] using hrel name⟩

/-- Values are equal if their shells are the same and their parts equal. -/
theorem equal_iff (hv : v.isPlain = true) (hw : w.isPlain = true) :
    Equal v w ↔ v.shell = w.shell ∧ ∀ slot, Option.Rel Equal (v.at? slot) (w.at? slot) := by
  rw [forall_slot]
  cases v with
  | float x => cases hv
  | foreign object => cases hv
  | bool b => cases w with
    | float x => cases hw
    | _ => simp [Equal,equal,shell,at?,numbersEqual,toNumber?,Number.equal]
  | int i => cases w with
    | float x => cases hw
    | _ => simp [Equal,equal,shell,at?,numbersEqual,toNumber?,Number.equal]
  | list xs => cases w with
    | list ys => simpa [Equal,equal,shell,at?] using itemsEqual_iff hv
    | _ => simp [Equal,equal,shell,numbersEqual,toNumber?]
  | tuple xs => cases w with
    | tuple ys => simpa [Equal,equal,shell,at?] using itemsEqual_iff hv
    | _ => simp [Equal,equal,shell,numbersEqual,toNumber?]
  | mapping es => cases w with
    | mapping fs => simpa [shell,at?] using equal_mapping_iff hv hw
    | _ => simp [Equal,equal,shell,numbersEqual,toNumber?]
  | _ => cases w <;> simp [Equal,equal,shell,at?,numbersEqual,toNumber?]

section
variable {x y z : Option Value}

theorem rel_self (h : ∀ v, x = some v → Equal v v) : Option.Rel Equal x x := by
  cases x with
  | none => exact .none
  | some v => exact .some (h v rfl)

theorem rel_symm (hrel : Option.Rel Equal x y)
    (h : ∀ v w, x = some v → y = some w → Equal v w → Equal w v) : Option.Rel Equal y x := by
  cases hrel with
  | none => exact .none
  | some hvw => exact .some (h _ _ rfl rfl hvw)

theorem rel_trans (hrel : Option.Rel Equal x y) (hrel' : Option.Rel Equal y z)
    (h : ∀ u v w, x = some u → y = some v → z = some w → Equal u v → Equal v w → Equal u w) :
    Option.Rel Equal x z := by
  cases hrel with
  | none => exact hrel'
  | some huv =>
    cases hrel' with
    | some hvw => exact .some (h _ _ _ rfl rfl rfl huv hvw)

end

theorem equal_refl (h : v.isPlain = true) : Equal v v := by
  induction v, h using plain_induct with
  | step v hv ih => exact (equal_iff hv hv).mpr ⟨rfl,fun slot => rel_self (ih slot)⟩

theorem equal_symm (hv : v.isPlain = true) (hw : w.isPlain = true) (h : Equal v w) : Equal w v := by
  induction v, hv using plain_induct generalizing w with
  | step v hv ih =>
    obtain ⟨hshell,hparts⟩ := (equal_iff hv hw).mp h
    refine (equal_iff hw hv).mpr ⟨hshell.symm,fun slot => rel_symm (hparts slot) ?_⟩
    intro x y hx hy hxy
    exact ih slot x hx (plain_of_at? hw hy) hxy

theorem equal_trans (hu : u.isPlain = true) (hv : v.isPlain = true) (hw : w.isPlain = true)
    (h : Equal u v) (h' : Equal v w) : Equal u w := by
  induction u, hu using plain_induct generalizing v w with
  | step u hu ih =>
    obtain ⟨hshell,hparts⟩ := (equal_iff hu hv).mp h
    obtain ⟨hshell',hparts'⟩ := (equal_iff hv hw).mp h'
    refine (equal_iff hu hw).mpr ⟨hshell.trans hshell',fun slot => ?_⟩
    refine rel_trans (hparts slot) (hparts' slot) fun x y z hx hy hz => ?_
    exact ih slot x hx (plain_of_at? hv hy) (plain_of_at? hw hz)

theorem equal_comm (hv : v.isPlain = true) (hw : w.isPlain = true) : v.equal w = w.equal v :=
  Bool.eq_iff_iff.mpr ⟨equal_symm hv hw,equal_symm hw hv⟩

/-- Equal values compare alike with any other. -/
theorem equal_congr (hu : u.isPlain = true) (hv : v.isPlain = true) (hw : w.isPlain = true)
    (h : Equal u v) : u.equal w = v.equal w :=
  Bool.eq_iff_iff.mpr ⟨equal_trans hv hu hw (equal_symm hu hv h),equal_trans hu hv hw h⟩

/-- What stands around one item of a list or tuple, or around the value of one entry. -/
inductive Place where
  | listItem (before after : List Value)
  | tupleItem (before after : List Value)
  | entry (before : Mapping) (key : Value) (after : Mapping)

def Place.fill : Place → Value → Value
  | listItem before after, v => list (before ++ v :: after)
  | tupleItem before after, v => tuple (before ++ v :: after)
  | entry before key after, v => mapping (before ++ (key,v) :: after)

theorem plain_fill_iff (place : Place) (hw : w.isPlain = true) :
    (place.fill v).isPlain = true ↔ v.isPlain = true ∧ (place.fill w).isPlain = true := by
  cases place with
  | listItem before after | tupleItem before after =>
    simp only [Place.fill,isPlain,arePlain_iff,List.forall_mem_append,List.forall_mem_cons,hw]
    tauto
  | entry before key after =>
    simp only [Place.fill,isPlain,entriesPlain_iff,List.forall_mem_append,List.forall_mem_cons,hw,
      List.map_append,List.map_cons]
    tauto

theorem shell_fill (place : Place) (v w : Value) : (place.fill v).shell = (place.fill w).shell := by
  cases place <;> rfl

theorem rel_getElem? {before after : List Value} (h : Equal v w)
    (hself : ∀ u ∈ before ++ after, Equal u u) (i : Nat) :
    Option.Rel Equal (before ++ v :: after)[i]? (before ++ w :: after)[i]? := by
  rw [List.getElem?_append,List.getElem?_append]
  split
  · exact rel_self fun u hu => hself u (List.mem_append_left _ (List.mem_of_getElem? hu))
  · cases i - before.length with
    | zero => exact .some h
    | succ j => exact rel_self fun u hu => hself u (List.mem_append_right _ (List.mem_of_getElem? hu))

theorem rel_get? {before after : Mapping} {key : Value} (h : Equal v w)
    (hself : ∀ entry ∈ before ++ after, Equal entry.2 entry.2) (name : Text) :
    Option.Rel Equal (Mapping.get? name (before ++ (key,v) :: after))
      (Mapping.get? name (before ++ (key,w) :: after)) := by
  rw [Mapping.get?_append,Mapping.get?_append]
  cases hu : Mapping.get? name before with
  | some u =>
    exact .some (hself (text name,u) (List.mem_append_left _ (Mapping.mem_of_get? hu)))
  | none =>
    rw [Option.none_or,Option.none_or,Mapping.get?,Mapping.get?]
    split
    · exact .some h
    · exact rel_self fun u hu => hself (text name,u) (List.mem_append_right _ (Mapping.mem_of_get? hu))

/-- Equality is kept around any place. -/
theorem equal_fill {place : Place} (hv : (place.fill v).isPlain = true)
    (hw : (place.fill w).isPlain = true) (h : Equal v w) : Equal (place.fill v) (place.fill w) := by
  refine (equal_iff hv hw).mpr ⟨shell_fill place v w,forall_slot.mpr ?_⟩
  cases place with
  | listItem before after | tupleItem before after =>
    refine ⟨rel_getElem? h fun u hu => equal_refl (arePlain_iff.mp hv u ?_),fun _ => .none⟩
    simp only [List.mem_append,List.mem_cons] at hu ⊢
    tauto
  | entry before key after =>
    refine ⟨fun _ => .none,rel_get? h fun u hu => equal_refl ((entriesPlain_iff.mp hv).1 u ?_).2⟩
    simp only [List.mem_append,List.mem_cons] at hu ⊢
    tauto

/-- The same value but for the order of entries, in mappings at any depth. -/
inductive Reordered : Value → Value → Prop where
  | refl (v : Value) : Reordered v v
  | trans {u v w : Value} (h : Reordered u v) (h' : Reordered v w) : Reordered u w
  | entries {es fs : Mapping} (h : es.Perm fs) : Reordered (mapping es) (mapping fs)
  | inside (place : Place) {v w : Value} (h : Reordered v w) :
    Reordered (place.fill v) (place.fill w)

theorem entriesPlain_perm (h : es.Perm fs) (hes : entriesPlain es = true) :
    entriesPlain fs = true := by
  obtain ⟨hentries,hnodup⟩ := entriesPlain_iff.mp hes
  exact entriesPlain_iff.mpr
    ⟨fun entry hmem => hentries entry (h.mem_iff.mpr hmem),(h.map Prod.fst).nodup_iff.mp hnodup⟩

theorem equal_perm (h : es.Perm fs) (hes : entriesPlain es = true) :
    Equal (mapping es) (mapping fs) := by
  have hfs := entriesPlain_perm h hes
  refine (equal_mapping_iff hes hfs).mpr fun name => ?_
  have hget : Mapping.get? name fs = Mapping.get? name es := by
    ext v
    rw [get?_eq_some_iff hfs,get?_eq_some_iff hes,h.mem_iff]
  rw [hget]
  exact rel_self fun v hv => equal_refl ((entriesPlain_iff.mp hes).1 _ (Mapping.mem_of_get? hv)).2

/-- A value with its entries in another order is plain and equal to it. -/
theorem Reordered.equal (h : Reordered v w) (hv : v.isPlain = true) :
    w.isPlain = true ∧ Equal v w := by
  induction h with
  | refl v => exact ⟨hv,equal_refl hv⟩
  | trans _ _ ih ih' =>
    obtain ⟨hu,h⟩ := ih hv
    obtain ⟨hw,h'⟩ := ih' hu
    exact ⟨hw,equal_trans hv hu hw h h'⟩
  | entries h => exact ⟨entriesPlain_perm h hv,equal_perm h hv⟩
  | @inside place v w _ ih =>
    have hpart := ((plain_fill_iff (w := null) place rfl).mp hv).1
    obtain ⟨hw,h⟩ := ih hpart
    have hfill := (plain_fill_iff place hpart).mpr ⟨hw,hv⟩
    exact ⟨hfill,equal_fill hv hfill h⟩

end Value

section
variable {env : Env} {arg : Arg} {args : List Arg} {v : Value} {vs : List Value}

/-- The values of arguments are those to which one of them evaluates, and each evaluates to one. -/
theorem mem_of_evalArgs_ok (h : (evalArgs env args).result = .ok vs) :
    (∀ arg ∈ args, ∃ w, (arg.eval env).result = .ok w) ∧
      ∀ w, w ∈ vs ↔ ∃ arg ∈ args, (arg.eval env).result = .ok w := by
  induction args generalizing vs with
  | nil =>
    cases h
    simp
  | cons arg args ih =>
    obtain ⟨v,hv,hrest⟩ := Run.result_bind_eq_ok.mp h
    obtain ⟨ws,hws,⟨⟩⟩ := Run.result_bind_eq_ok.mp hrest
    obtain ⟨hall,hmem⟩ := ih hws
    refine ⟨List.forall_mem_cons.mpr ⟨⟨v,hv⟩,hall⟩,fun w => ?_⟩
    simp [hv,hmem,eq_comm]

theorem eval_eq_ok {left right : Arg} {a b : Value} (negated : Bool)
    (ha : (left.eval env).result = .ok a) (hb : (right.eval env).result = .ok b) :
    ((Condition.compare .eq negated left right).eval env).result = .ok (a.equal b != negated) := by
  have heq : (Comparison.eval env left right .eq).result = .ok (a.equal b) :=
    Run.result_bind_eq_ok.mpr ⟨a,ha,Run.result_bind_eq_ok.mpr ⟨b,hb,rfl⟩⟩
  exact Run.result_bind_eq_ok.mpr ⟨_,heq,rfl⟩

theorem eval_among_ok (negated : Bool) (hv : (arg.eval env).result = .ok v)
    (hvs : (evalArgs env args).result = .ok vs) :
    ((Condition.among negated arg args).eval env).result = .ok (v.isAmong vs != negated) :=
  Run.result_bind_eq_ok.mpr ⟨v,hv,Run.result_bind_eq_ok.mpr ⟨vs,hvs,rfl⟩⟩

/-- A value that is no NaN is found among others if it equals one of them. -/
theorem isAmong_iff (h : ∀ mark, v ≠ float (.nan mark)) (vs : List Value) :
    v.isAmong vs = true ↔ ∃ w ∈ vs, v.equal w = true := by
  have hnot : ∀ w, isSameNaN v w = false := by
    intro w
    fun_cases isSameNaN v w with
    | case1 m n => exact absurd rfl (h m)
    | case2 => rfl
  simp [isAmong,hnot]

end

/-- On plain values equality is an equivalence. It makes no difference to it in what order the
entries of a mapping stand, at any depth, nor whether an item of a list or tuple, or the value of an
entry, is replaced by an equal one. A condition with `in` holds just if the one with `eq` holds of
one of the items, and the negated conditions hold just if those do not; only a NaN, which equals
nothing, may still be found among the items. -/
theorem equality_laws :
    (Equivalence fun v w : {v : Value // v.isPlain = true} => v.1.equal w.1 = true) ∧
    (∀ v v' w w' : Value, v.isPlain = true → w.isPlain = true → Reordered v v' → Reordered w w' →
      v.equal w = v'.equal w') ∧
    (∀ (place : Place) (v v' w : Value), (place.fill v).isPlain = true → v'.isPlain = true →
      w.isPlain = true → v.equal v' = true →
        (place.fill v).equal (place.fill v') = true ∧
          (place.fill v).equal w = (place.fill v').equal w) ∧
    ∀ (env : Env) (arg : Arg) (items : List Arg) (v : Value) (vs : List Value),
      (arg.eval env).result = .ok v → (evalArgs env items).result = .ok vs →
      (∀ mark, v ≠ float (.nan mark)) →
        ∃ found, ((Condition.among false arg items).eval env).result = .ok found ∧
          ((Condition.among true arg items).eval env).result = .ok !found ∧
          (found = true ↔ ∃ item ∈ items,
            ((Condition.compare .eq false arg item).eval env).result = .ok true) ∧
          ∀ item ∈ items, ∃ w ∈ vs, (item.eval env).result = .ok w ∧
            ((Condition.compare .eq false arg item).eval env).result = .ok (v.equal w) ∧
            ((Condition.compare .eq true arg item).eval env).result = .ok !v.equal w := by
  refine ⟨⟨fun v => equal_refl v.2,fun {v w} => equal_symm v.2 w.2,
    fun {u v w} => equal_trans u.2 v.2 w.2⟩,?_,?_,?_⟩
  · intro v v' w w' hv hw hreordered hreordered'
    obtain ⟨hv',h⟩ := hreordered.equal hv
    obtain ⟨hw',h'⟩ := hreordered'.equal hw
    calc v.equal w = v'.equal w := equal_congr hv hv' hw h
      _ = w.equal v' := equal_comm hv' hw
      _ = w'.equal v' := equal_congr hw hw' hv' h'
      _ = v'.equal w' := equal_comm hw' hv'
  · intro place v v' w hfill hv' hw h
    obtain ⟨hv,hfill'⟩ := (plain_fill_iff place hv').mp hfill
    have heq := equal_fill hfill hfill' h
    exact ⟨heq,equal_congr hfill hfill' hw heq⟩
  · intro env arg items v vs hv hvs hnan
    obtain ⟨hall,hmem⟩ := mem_of_evalArgs_ok hvs
    have heq : ∀ item w, (item.eval env).result = .ok w →
        ((Condition.compare .eq false arg item).eval env).result = .ok (v.equal w) := by
      intro item w hw
      simpa using eval_eq_ok false hv hw
    refine ⟨v.isAmong vs,by simpa using eval_among_ok false hv hvs,
      by simpa using eval_among_ok true hv hvs,?_,?_⟩
    · rw [isAmong_iff hnan]
      constructor
      · rintro ⟨w,hw,h⟩
        obtain ⟨item,hitem,heval⟩ := (hmem w).mp hw
        exact ⟨item,hitem,by rw [heq item w heval,h]⟩
      · rintro ⟨item,hitem,h⟩
        obtain ⟨w,heval⟩ := hall item hitem
        rw [heq item w heval] at h
        exact ⟨w,(hmem w).mpr ⟨item,hitem,heval⟩,Except.ok.inj h⟩
    · intro item hitem
      obtain ⟨w,heval⟩ := hall item hitem
      exact ⟨w,(hmem w).mpr ⟨item,hitem,heval⟩,heval,heq item w heval,
        by simpa using eval_eq_ok true hv heval⟩

/-- A list with `true` in it equals one with the number one, also where entries stand in another
order around it, and the second item is found by `in`. -/
theorem equality_laws_of_nested :
    let around := Place.entry [] (text ['a']) [(text ['b'],null)]
    let v := around.fill (list [bool true])
    let w := mapping [(text ['b'],null),(text ['a'],list [bool true])]
    let items : List Arg := [.mk (.literal ['b']) [],.mk (.literal ['a']) []]
    v.isPlain = true ∧ Reordered v w ∧ v.equal v = v.equal w ∧
      (list [int 1]).isPlain = true ∧ (list [bool true]).equal (list [int 1]) = true ∧
      v.equal (around.fill (list [int 1])) = true ∧
      ((Condition.among false (.mk (.literal ['a']) []) items).eval ⟨.start [],.standard⟩).result =
        .ok true := by
  intro around v w items
  obtain ⟨-,hreordered,hfill,hamong⟩ := equality_laws
  have hv : v.isPlain = true := by decide
  have hw : Reordered v w := .entries (List.Perm.swap _ _ [])
  have hone : (list [int 1]).isPlain = true := by decide
  have heq : (list [bool true]).equal (list [int 1]) = true := by decide
  refine ⟨hv,hw,hreordered v v v w hv hv (.refl v) hw,hone,heq,
    (hfill around _ _ v hv hone hv heq).1,?_⟩
  obtain ⟨found,hfound,-,hiff,-⟩ := hamong ⟨.start [],.standard⟩ (.mk (.literal ['a']) []) items
    (text ['a']) [text ['b'],text ['a']] rfl rfl nofun
  rw [hfound,hiff.mpr ⟨_,List.mem_cons_of_mem _ List.mem_cons_self,rfl⟩]

end Stencil

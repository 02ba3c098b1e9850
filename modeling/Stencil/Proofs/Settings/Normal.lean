import Mathlib.Data.List.Forall2
import Stencil.Proofs.Evaluation.Scoping
import Stencil.Proofs.Json.Display
import Stencil.Settings.Normal
import Stencil.Template.Outcome

/-! # What normal forms are, and where there is none

The normal form of a value has the same shape with texts in the place of scalars, and only texts as
keys. There is none if something in the value has no text: then the first such part is reported,
with the path that leads to it, where values are gone through depth first and in order.
-/
namespace Stencil

open Value

namespace Mapping
variable {names : List Text} {name : Text} {v : Value} {m : Mapping} {entry : Value × Value}

theorem mem_insert (h : entry ∈ insert (.text name) v m) : entry.2 = v ∨ entry ∈ m := by
  induction m with
  | nil =>
    obtain rfl := List.mem_singleton.mp h
    exact Or.inl rfl
  | cons first m ih =>
    rcases first with ⟨key,w⟩
    rw [insert_cons] at h
    split at h
    · obtain rfl | h := List.mem_cons.mp h
      · exact Or.inl rfl
      · exact Or.inr (List.mem_cons_of_mem _ h)
    · obtain rfl | h := List.mem_cons.mp h
      · exact Or.inr List.mem_cons_self
      · exact (ih h).imp_right (List.mem_cons_of_mem _)

theorem keys_insert_of_mem (h : Value.text name ∈ m.map Prod.fst) (v : Value) :
    (insert (.text name) v m).map Prod.fst = m.map Prod.fst := by
  induction m with
  | nil => cases h
  | cons first m ih =>
    rcases first with ⟨key,w⟩
    rw [insert_cons]
    split
    · rfl
    · next hne =>
      rw [isText_iff] at hne
      have hmem : Value.text name ∈ m.map Prod.fst := by
        simpa [Ne.symm hne] using h
      simp [ih hmem]

theorem Named.exists_text (h : Named names m) (hentry : entry ∈ m) :
    ∃ name, entry.1 = Value.text name := by
  have hkey : entry.1 ∈ names.map Value.text := h.1 ▸ List.mem_map_of_mem hentry
  obtain ⟨name,-,hname⟩ := List.mem_map.mp hkey
  exact ⟨name,hname.symm⟩

theorem Named.insert (h : Named names m) (name : Text) (v : Value) :
    ∃ names, Named names (m.insert (.text name) v) := by
  obtain ⟨hkeys,hnodup⟩ := h
  by_cases hname : name ∈ names
  · have hmem : Value.text name ∈ m.map Prod.fst := hkeys ▸ List.mem_map_of_mem hname
    exact ⟨names,(keys_insert_of_mem hmem v).trans hkeys,hnodup⟩
  · refine ⟨names ++ [name],?_,?_⟩
    · rw [insert_of_notMem hkeys hname,List.map_append,hkeys,List.map_append]
      rfl
    · simpa [List.nodup_append] using ⟨hnodup,fun other hother heq => hname (heq ▸ hother)⟩

end Mapping

namespace Value

/-- A value that holds no others, with the path that leads to it, or a key, with the path that
leads to its mapping. -/
structure Part where
  path : List Text
  value : Value
  isKey : Bool

mutual

/-- The parts of the value that `path` leads to, depth first and in order. A key stands before what
is under it. -/
def parts (path : List Text) : Value → List Part
  | list items => itemParts path 0 items
  | tuple items => itemParts path 0 items
  | mapping entries => entryParts path entries
  | v => [⟨path,v,false⟩]

/-- The parts of items, the first of which has the number `index`. -/
def itemParts (path : List Text) (index : Nat) : List Value → List Part
  | [] => []
  | item :: items => parts (path ++ [natText index]) item ++ itemParts path (index + 1) items

def entryParts (path : List Text) : List (Value × Value) → List Part
  | [] => []
  | (key,v) :: entries =>
    ⟨path,key,true⟩ :: (parts (path ++ [key.keyText]) v ++ entryParts path entries)

end

def isSupported : Value → Bool
  | foreign _ => false
  | _ => true

namespace Part

/-- Whatever stands as a key is shown, as messages show it. -/
def isUnsupported (part : Part) : Bool := !part.isKey && !part.value.isSupported

def problem? (part : Part) : Option SettingProblem :=
  if part.isUnsupported then some ⟨.unsupported part.value.kindName,part.path⟩
  else if part.value.isWritable then none
  else some ⟨.longNumeral,part.path⟩

theorem problem?_of_supported {part : Part} (h : part.isUnsupported = false) :
    part.problem? = if part.value.isWritable then none else some ⟨.longNumeral,part.path⟩ := by
  rw [problem?,h,if_neg Bool.false_ne_true]

end Part

def firstProblem? (path : List Text) (v : Value) : Option SettingProblem :=
  (parts path v).findSome? Part.problem?

/-- Null, and what is a truth value, a number or a text. -/
def isScalar : Value → Bool
  | list _ | tuple _ | mapping _ | foreign _ => false
  | _ => true

def textKeys (entries : Mapping) : List Value := entries.map fun entry => text entry.1.keyText

/-- The second value is the normal form of the first. Of entries whose keys become the same text,
the last one counts, at the place of the first. -/
inductive NormalOf : Value → Value → Prop where
  | scalar {v : Value} {t : Text} (h : v.isScalar = true) (ht : v.display = .ok t) : NormalOf v (text t)
  | list {items normal : List Value} (h : List.Forall₂ NormalOf items normal) :
    NormalOf (list items) (list normal)
  | tuple {items normal : List Value} (h : List.Forall₂ NormalOf items normal) :
    NormalOf (tuple items) (list normal)
  | mapping {entries : Mapping} {values : List Value}
    (h : List.Forall₂ NormalOf (entries.map Prod.snd) values) :
    NormalOf (mapping entries) (mapping (Mapping.ofEntries ((textKeys entries).zip values)))

/-- A value made of texts, lists, and mappings whose keys are distinct texts. -/
inductive IsNormal : Value → Prop where
  | text (t : Text) : IsNormal (text t)
  | list {items : List Value} (h : ∀ v ∈ items, IsNormal v) : IsNormal (list items)
  | mapping {names : List Text} {entries : Mapping} (keys : Mapping.Named names entries)
    (h : ∀ entry ∈ entries, IsNormal entry.2) : IsNormal (mapping entries)

/-- A problem if there is one, and else a result for which `p` holds. -/
inductive Yields (p : α → Prop) : Option SettingProblem → Except SettingProblem α → Prop where
  | failed (problem : SettingProblem) : Yields p (some problem) (.error problem)
  | done {a : α} (h : p a) : Yields p none (.ok a)

section
variable {p : α → Prop} {q : β → Prop} {x y : Option SettingProblem} {r : Except SettingProblem α}

theorem Yields.bind {f : α → Except SettingProblem β} (h : Yields p x r)
    (hf : ∀ a, p a → Yields q y (f a)) : Yields q (x.or y) (r >>= f) := by
  cases h with
  | failed problem => exact .failed problem
  | done h => exact hf _ h

theorem Yields.imp {q : α → Prop} (h : Yields p x r) (hq : ∀ a, p a → q a) : Yields q x r := by
  cases h with
  | failed problem => exact .failed problem
  | done h => exact .done (hq _ h)

theorem Yields.map {f : α → β} (h : Yields p x r) (hf : ∀ a, p a → q (f a)) :
    Yields q x (r >>= fun a => pure (f a)) := by
  cases h with
  | failed problem => exact .failed problem
  | done h => exact .done (hf _ h)

theorem Yields.error_iff (h : Yields p x r) (problem : SettingProblem) :
    r = .error problem ↔ x = some problem := by
  cases h <;> simp

theorem Yields.of_ok {a : α} (h : Yields p x (.ok a)) : p a := by
  cases h with
  | done h => exact h

end

variable {path : List Text} {v w : Value} {items : List Value} {entries : Mapping}

theorem normalizeItems_yields
    (h : ∀ v ∈ items, ∀ path, Yields (NormalOf v) (firstProblem? path v) (normalize path v))
    (path : List Text) (index : Nat) :
    Yields (List.Forall₂ NormalOf items) ((itemParts path index items).findSome? Part.problem?)
      (normalizeItems path index items) := by
  induction items generalizing index with
  | nil => exact .done .nil
  | cons item items ih =>
    obtain ⟨hitem,hitems⟩ := List.forall_mem_cons.mp h
    rw [itemParts,List.findSome?_append,normalizeItems]
    exact (hitem _).bind fun w hw => (ih hitems (index + 1)).map fun ws hws => .cons hw hws

theorem normalizeEntries_yields
    (h : ∀ entry ∈ entries, ∀ path,
      Yields (NormalOf entry.2) (firstProblem? path entry.2) (normalize path entry.2))
    (path : List Text) (done : Mapping) :
    Yields (fun written => ∃ values, List.Forall₂ NormalOf (entries.map Prod.snd) values ∧
        written = ((textKeys entries).zip values).foldl
          (fun written entry => Mapping.insert entry.1 entry.2 written) done)
      ((entryParts path entries).findSome? Part.problem?) (normalizeEntries path done entries) := by
  induction entries generalizing done with
  | nil => exact .done ⟨[],.nil,rfl⟩
  | cons entry entries ih =>
    rcases entry with ⟨key,v⟩
    obtain ⟨hv,hentries⟩ := List.forall_mem_cons.mp h
    rw [entryParts,List.findSome?_cons,List.findSome?_append,normalizeEntries,
      Part.problem?_of_supported rfl]
    cases key.isWritable with
    | false => exact .failed ⟨.longNumeral,path⟩
    | true =>
      refine (hv (path ++ [key.keyText])).bind fun w hw => ?_
      refine (ih hentries (insertNormal key w done)).imp fun written hwritten => ?_
      obtain ⟨values,hvalues,hfold⟩ := hwritten
      exact ⟨w :: values,.cons hw hvalues,hfold⟩

theorem normalize_yields (path : List Text) (v : Value) :
    Yields (NormalOf v) (firstProblem? path v) (normalize path v) := by
  induction v generalizing path with
  | list items ih =>
    rw [firstProblem?,parts,normalize]
    exact (normalizeItems_yields ih path 0).map fun normal hnormal => .list hnormal
  | tuple items ih =>
    rw [firstProblem?,parts,normalize]
    exact (normalizeItems_yields ih path 0).map fun normal hnormal => .tuple hnormal
  | mapping entries ih =>
    rw [firstProblem?,parts,normalize]
    refine (normalizeEntries_yields ih path []).map fun written hwritten => ?_
    obtain ⟨values,hvalues,rfl⟩ := hwritten
    exact .mapping hvalues
  | foreign object => exact .failed _
  | int i =>
    have hparts : parts path (int i) = [⟨path,int i,false⟩] := by simp [parts]
    rw [firstProblem?,hparts,List.findSome?_singleton,Part.problem?_of_supported rfl,normalize]
    cases hshort : (int i).isWritable with
    | false => exact .failed _
    | true => exact .done (.scalar rfl (numeralText_eq_ok.mpr ⟨hshort,rfl⟩))
  | null => exact .done (.scalar rfl rfl)
  | bool b => exact .done (.scalar rfl rfl)
  | float x => exact .done (.scalar rfl rfl)
  | text t => exact .done (.scalar rfl rfl)

theorem forall_right_of_forall₂ {R : Value → Value → Prop} {p q : Value → Prop} {xs ys : List Value}
    (h : List.Forall₂ R xs ys) (hp : ∀ x ∈ xs, p x) (hq : ∀ x y, p x → R x y → q y) :
    ∀ y ∈ ys, q y := by
  induction h with
  | nil => simp
  | cons hxy _ ih =>
    obtain ⟨hx,hxs⟩ := List.forall_mem_cons.mp hp
    exact List.forall_mem_cons.mpr ⟨hq _ _ hx hxy,ih hxs⟩

theorem IsNormal.insert {m : Mapping} (h : IsNormal (.mapping m)) (hv : IsNormal v) (name : Text) :
    IsNormal (.mapping (m.insert (.text name) v)) := by
  cases h with
  | mapping keys h =>
    obtain ⟨names,hnames⟩ := keys.insert name v
    refine .mapping hnames fun entry hentry => ?_
    obtain heq | hentry := Mapping.mem_insert hentry
    · exact heq ▸ hv
    · exact h entry hentry

/-- Normal values that are written one after another under texts make a normal mapping. -/
theorem isNormal_ofEntries (h : ∀ entry ∈ entries, (∃ name, entry.1 = text name) ∧ IsNormal entry.2) :
    IsNormal (mapping (Mapping.ofEntries entries)) := by
  have hnil : IsNormal (mapping []) := @IsNormal.mapping [] [] ⟨rfl,List.nodup_nil⟩ (by simp)
  refine List.foldlRecOn (motive := fun m => IsNormal (mapping m)) entries _ hnil ?_
  intro m hm entry hentry
  obtain ⟨⟨name,hname⟩,hv⟩ := h entry hentry
  rw [hname]
  exact hm.insert hv name

theorem NormalOf.isNormal (h : NormalOf v w) : IsNormal w := by
  induction v generalizing w with
  | list items ih =>
    cases h with
    | list h => exact .list (forall_right_of_forall₂ h ih fun _ _ hp hr => hp hr)
    | scalar h => cases h
  | tuple items ih =>
    cases h with
    | tuple h => exact .list (forall_right_of_forall₂ h ih fun _ _ hp hr => hp hr)
    | scalar h => cases h
  | mapping entries ih =>
    cases h with
    | @mapping _ values h =>
      have hvalues : ∀ w ∈ values, IsNormal w :=
        forall_right_of_forall₂ h (p := fun v => ∀ w, NormalOf v w → IsNormal w)
          (List.forall_mem_map.mpr fun entry hentry w => ih entry hentry) fun _ w hp hr => hp w hr
      refine isNormal_ofEntries fun entry hentry => ?_
      obtain ⟨hkey,hvalue⟩ := List.of_mem_zip hentry
      obtain ⟨first,-,hfirst⟩ := List.mem_map.mp hkey
      exact ⟨⟨_,hfirst.symm⟩,hvalues _ hvalue⟩
    | scalar h => cases h
  | _ =>
    cases h
    exact .text _

theorem normalizeItems_of_forall (h : ∀ v ∈ items, ∀ path, normalize path v = .ok v)
    (path : List Text) (index : Nat) : normalizeItems path index items = .ok items := by
  induction items generalizing index with
  | nil => rfl
  | cons item items ih =>
    obtain ⟨hitem,hitems⟩ := List.forall_mem_cons.mp h
    rw [normalizeItems,hitem,ih hitems]
    rfl

theorem normalizeEntries_of_forall (h : ∀ entry ∈ entries, (∃ name, entry.1 = text name) ∧
      ∀ path, normalize path entry.2 = .ok entry.2) (path : List Text) (done : Mapping) :
    normalizeEntries path done entries =
      .ok (entries.foldl (fun written entry => Mapping.insert entry.1 entry.2 written) done) := by
  induction entries generalizing done with
  | nil => rfl
  | cons entry entries ih =>
    rcases entry with ⟨key,v⟩
    obtain ⟨⟨⟨name,hkey⟩,hv⟩,hentries⟩ := List.forall_mem_cons.mp h
    cases hkey
    have hfixed : normalize (path ++ [(text name).keyText]) v = .ok v := hv _
    rw [normalizeEntries,hfixed]
    exact ih hentries (Mapping.insert (text name) v done)

/-- A normal value is its own normal form. -/
theorem IsNormal.normalize (h : IsNormal v) (path : List Text) : normalize path v = .ok v := by
  induction v generalizing path with
  | text t => rfl
  | list items ih =>
    cases h with
    | list h =>
      rw [Value.normalize,normalizeItems_of_forall fun v hv => ih v hv (h v hv)]
      rfl
  | mapping entries ih =>
    cases h with
    | mapping keys h =>
      rw [Value.normalize,normalizeEntries_of_forall fun entry hentry =>
        ⟨keys.exists_text hentry,ih entry hentry (h entry hentry)⟩]
      exact congrArg (Except.ok ∘ Value.mapping) (Mapping.ofEntries_eq_self keys)
  | _ => cases h

/-- Under keys that are distinct texts every entry keeps its key and its place. -/
theorem NormalOf.of_named {names : List Text} (hkeys : Mapping.Named names entries)
    (h : NormalOf (.mapping entries) w) :
    ∃ normal : Mapping, w = .mapping normal ∧ normal.map Prod.fst = entries.map Prod.fst ∧
      List.Forall₂ NormalOf (entries.map Prod.snd) (normal.map Prod.snd) := by
  cases h with
  | scalar h => cases h
  | @mapping _ values h =>
    have htext : textKeys entries = entries.map Prod.fst := by
      refine List.map_congr_left fun entry hentry => ?_
      obtain ⟨name,hname⟩ := hkeys.exists_text hentry
      rw [hname,keyText]
    have hlength := h.length_eq
    have hfst : ((textKeys entries).zip values).map Prod.fst = entries.map Prod.fst := by
      rw [List.map_fst_zip (by simp_all [textKeys]),htext]
    have hsnd : ((textKeys entries).zip values).map Prod.snd = values :=
      List.map_snd_zip (by simp_all [textKeys])
    rw [Mapping.ofEntries_eq_self ⟨hfst.trans hkeys.1,hkeys.2⟩]
    exact ⟨_,rfl,hfst,by rwa [hsnd]⟩

theorem all_itemParts
    (h : ∀ v ∈ items, ∀ path, ((parts path v).all fun part => part.value.isWritable) = v.isWritable)
    (path : List Text) (index : Nat) :
    ((itemParts path index items).all fun part => part.value.isWritable) = areWritable items := by
  induction items generalizing index with
  | nil => rfl
  | cons item items ih =>
    obtain ⟨hitem,hitems⟩ := List.forall_mem_cons.mp h
    rw [itemParts,List.all_append,hitem,ih hitems,areWritable]

theorem all_entryParts
    (h : ∀ entry ∈ entries, ∀ path,
      ((parts path entry.2).all fun part => part.value.isWritable) = entry.2.isWritable)
    (path : List Text) :
    ((entryParts path entries).all fun part => part.value.isWritable) = entriesWritable entries := by
  induction entries with
  | nil => rfl
  | cons entry entries ih =>
    rcases entry with ⟨key,v⟩
    obtain ⟨hv,hentries⟩ := List.forall_mem_cons.mp h
    rw [entryParts,List.all_cons,List.all_append,hv,ih hentries,entriesWritable,Bool.and_assoc]

/-- The numbers of a value can be written just if those in its parts can. -/
theorem all_parts (path : List Text) (v : Value) :
    ((parts path v).all fun part => part.value.isWritable) = v.isWritable := by
  induction v generalizing path with
  | list items ih | tuple items ih =>
    rw [parts,all_itemParts ih]
    rfl
  | mapping entries ih =>
    rw [parts,all_entryParts ih]
    rfl
  | _ => simp [parts]

/-- Where all numbers can be written, only what is not supported is a problem. -/
theorem firstProblem?_of_isWritable (h : v.isWritable = true) (path : List Text) :
    firstProblem? path v = ((parts path v).find? Part.isUnsupported).map fun part =>
      ⟨.unsupported part.value.kindName,part.path⟩ := by
  rw [← all_parts path v,List.all_eq_true] at h
  unfold firstProblem?
  generalize parts path v = all at h ⊢
  induction all with
  | nil => rfl
  | cons part others ih =>
    obtain ⟨hpart,hothers⟩ := List.forall_mem_cons.mp h
    cases hunsupported : part.isUnsupported with
    | true => simp [Part.problem?,hunsupported]
    | false => simp [Part.problem?,hunsupported,hpart,ih hothers]

theorem isWritable_of_normalize_ok (h : normalize path v = .ok w) : v.isWritable = true := by
  have hyields := normalize_yields path v
  rw [h] at hyields
  generalize hfirst : firstProblem? path v = first at hyields
  cases hyields
  rw [← all_parts path v,List.all_eq_true]
  intro part hpart
  have hnone := List.findSome?_eq_none_iff.mp hfirst part hpart
  cases hunsupported : part.isUnsupported with
  | true => simp [Part.problem?,hunsupported] at hnone
  | false => simpa [Part.problem?,hunsupported] using hnone

/-- Normalising reports the first problem, and only if there is none it gives a normal form. If all
numbers can be written, the one problem is a part that is not supported, and the report is of the
first such part, depth first and in order, with the path that leads to it. The normal form is made
of texts, lists, and mappings under texts, of the same shape: lists and tuples keep their items in
place, mappings under distinct texts keep their keys in place, and normalising it again changes
nothing. -/
theorem normalize_first_problem (path : List Text) (v : Value) :
    (∀ problem, normalize path v = .error problem ↔ firstProblem? path v = some problem) ∧
    (v.isWritable = true → ∀ failure,
      (normalize path v).mapError Failure.ofSetting = .error failure ↔
        ∃ part, (parts path v).find? Part.isUnsupported = some part ∧
          failure = .settings ⟨.unsupported part.value.kindName,part.path⟩) ∧
    (∀ w, normalize path v = .ok w →
      NormalOf v w ∧ IsNormal w ∧ ∀ other, normalize other w = .ok w) ∧
    ∀ (names : List Text) (entries : Mapping) (w : Value), Mapping.Named names entries →
      NormalOf (mapping entries) w → ∃ normal : Mapping, w = mapping normal ∧
        normal.map Prod.fst = entries.map Prod.fst ∧
        List.Forall₂ NormalOf (entries.map Prod.snd) (normal.map Prod.snd) := by
  have hyields := normalize_yields path v
  refine ⟨hyields.error_iff,fun hv failure => ?_,fun w hw => ?_,fun _ _ _ => NormalOf.of_named⟩
  · rw [firstProblem?_of_isWritable hv] at hyields
    generalize normalize path v = result at hyields ⊢
    cases hfind : (parts path v).find? Part.isUnsupported with
    | none =>
      rw [hfind] at hyields
      cases hyields
      simp [Except.mapError]
    | some part =>
      rw [hfind] at hyields
      cases hyields
      simp [Except.mapError,Failure.ofSetting,SettingCause.isWritable,eq_comm]
  · rw [hw] at hyields
    have hnormal := hyields.of_ok
    exact ⟨hnormal,hnormal.isNormal,hnormal.isNormal.normalize⟩

/-- Of two parts that are not supported the one that comes first is reported. Where there are none,
keys stay as they are and tuples become lists. -/
theorem normalize_first_problem_of_two :
    let v := mapping [(int 1,list [null]),(text ['a'],tuple [int 2,foreign (.bytes [0])]),
      (text ['b'],foreign (.bytes []))]
    let entries : Mapping := [(text ['b'],tuple [bool true,null]),(text ['a'],list [])]
    let w := mapping [(text ['b'],list [text "true".toList,text []]),(text ['a'],list [])]
    v.isWritable = true ∧ (normalize [] v).mapError Failure.ofSetting =
      .error (.settings ⟨.unsupported "bytes",[['a'],['1']]⟩) ∧
    normalize [] (mapping entries) = .ok w ∧ normalize [] w = .ok w ∧
    Mapping.Named [['b'],['a']] entries ∧ ∃ normal : Mapping, w = mapping normal ∧
      normal.map Prod.fst = entries.map Prod.fst ∧
      List.Forall₂ NormalOf (entries.map Prod.snd) (normal.map Prod.snd) := by
  intro v entries w
  have hv : v.isWritable = true := by decide +kernel
  have hw : normalize [] (mapping entries) = .ok w := by rfl
  have hkeys : Mapping.Named [['b'],['a']] entries := ⟨rfl,by decide⟩
  obtain ⟨-,-,hok,hkept⟩ := normalize_first_problem [] (mapping entries)
  obtain ⟨hnormal,-,hagain⟩ := hok w hw
  exact ⟨hv,((normalize_first_problem [] v).2.1 hv _).mpr ⟨⟨[['a'],['1']],foreign (.bytes [0]),false⟩,rfl,rfl⟩,
    hw,hagain [],hkeys,hkept _ entries w hkeys hnormal⟩

/-- A number of 4301 digits has no text, and the failure that it leads to is no problem with
settings, although everything in the mapping is supported. -/
theorem normalize_overlong :
    let v := mapping [(text ['a'],int (Nat.pow 10 numeralLimit))]
    (∀ part ∈ parts [] v, part.isUnsupported = false) ∧
      (normalize [] v).mapError Failure.ofSetting = .error (.broken .longNumeral) := by
  intro v
  -- The number stays a variable in these, so that nothing evaluates the power.
  have hsupported : ∀ i, ∀ part ∈ parts [] (mapping [(text ['a'],int i)]),
      part.isUnsupported = false := by
    simp [parts,entryParts,Part.isUnsupported,isSupported]
  have hrefused : ∀ i, (int i).isWritable = false →
      normalize [] (mapping [(text ['a'],int i)]) = .error ⟨.longNumeral,[['a']]⟩ := by
    intro i hi
    have hnormalize : normalize [['a']] (int i) = .error ⟨.longNumeral,[['a']]⟩ := by
      rw [normalize,hi,if_neg Bool.false_ne_true]
    have hentries : normalizeEntries [] [] [(text ['a'],int i)] =
        .error ⟨.longNumeral,[['a']]⟩ := by
      rw [normalizeEntries,keyText,List.nil_append,hnormalize]
      rfl
    rw [normalize,hentries]
    rfl
  refine ⟨hsupported _,?_⟩
  rw [hrefused _ isShort_overlong]
  rfl

end Value

end Stencil

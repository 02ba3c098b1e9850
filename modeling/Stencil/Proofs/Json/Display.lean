import Stencil.Proofs.Json.Decoding
import Stencil.Proofs.Value.Writing

/-! # Mappings as JSON

What a mapping prints as is a JSON document. If it holds no doubles and nothing foreign, and if its keys are
texts, then the document is for that mapping, with lists in the place of tuples, and for no other
value. So two such mappings print alike only if they have the same entries in the same order. Only
a number with too many digits leaves such a mapping without a text.
-/
namespace Stencil

namespace Value

mutual

/-- A value without doubles and foreign objects, whose mappings have distinct texts as keys. -/
def isPlain : Value → Bool
  | float _ => false
  | foreign _ => false
  | list items => arePlain items
  | tuple items => arePlain items
  | mapping entries => entriesPlain entries
  | _ => true

def arePlain : List Value → Bool
  | [] => true
  | item :: items => isPlain item && arePlain items

def entriesPlain : List (Value × Value) → Bool
  | [] => true
  | (text name,value) :: entries =>
    (Mapping.get? name entries).isNone && isPlain value && entriesPlain entries
  | _ :: _ => false

end

mutual

/-- The value with every tuple in it, however deep, as a list. -/
def untupled : Value → Value
  | list items => list (itemsUntupled items)
  | tuple items => list (itemsUntupled items)
  | mapping entries => mapping (entriesUntupled entries)
  | v => v

def itemsUntupled : List Value → List Value
  | [] => []
  | item :: items => untupled item :: itemsUntupled items

def entriesUntupled : List (Value × Value) → List (Value × Value)
  | [] => []
  | (key,value) :: entries => (key,untupled value) :: entriesUntupled entries

end

end Value

open Value

namespace Mapping

/-- The keys are texts, and all are distinct. -/
def Named (names : List Text) (m : Mapping) : Prop :=
  m.map Prod.fst = names.map Value.text ∧ names.Nodup

variable {names : List Text} {name : Text} {m entries : Mapping}

theorem get?_eq_none_iff : get? name m = none ↔ text name ∉ m.map Prod.fst := by
  induction m with
  | nil => simp [get?]
  | cons entry m ih =>
    by_cases h : entry.1 = text name
    · simp [get?,isText_iff,h]
    · simp [get?,isText_iff,h,ih,Ne.symm h]

theorem insert_of_notMem (h : m.map Prod.fst = names.map Value.text) (hname : name ∉ names)
    (v : Value) : insert (.text name) v m = m ++ [(.text name,v)] := by
  induction m generalizing names with
  | nil => rfl
  | cons entry m ih =>
    rcases entry with ⟨key,w⟩
    obtain ⟨s,names,rfl,rfl,hm⟩ := List.map_eq_cons_iff.mp h.symm
    obtain ⟨hs,hnames⟩ := not_or.mp (mt List.mem_cons.mpr hname)
    have hne : ¬(isSameNaN (.text s) (.text name) || (Value.text s).equal (.text name)) = true := by
      simp [isSameNaN,equal,Ne.symm hs]
    rw [insert,if_neg hne,ih hm.symm hnames,List.cons_append]

/-- Written one after another, distinct entries keep their order. -/
theorem foldl_insert (h : Named names (m ++ entries)) :
    entries.foldl (fun written entry => insert entry.1 entry.2 written) m = m ++ entries := by
  induction entries generalizing m with
  | nil => exact (List.append_nil m).symm
  | cons entry entries ih =>
    rcases entry with ⟨key,v⟩
    have hinsert : insert key v m = m ++ [(key,v)] := by
      obtain ⟨hkeys,hnodup⟩ := h
      rw [List.map_append] at hkeys
      obtain ⟨before,after,rfl,hbefore,hafter⟩ := List.map_eq_append_iff.mp hkeys.symm
      obtain ⟨name,after,rfl,rfl,-⟩ := List.map_eq_cons_iff.mp hafter
      obtain ⟨-,-,hdisjoint⟩ := List.nodup_append.mp hnodup
      exact insert_of_notMem hbefore.symm
        (fun hmem => hdisjoint name hmem name List.mem_cons_self rfl) v
    have hassoc : m ++ (key,v) :: entries = m ++ [(key,v)] ++ entries := by simp
    rw [List.foldl_cons,hinsert,hassoc]
    exact ih (hassoc ▸ h)

theorem ofEntries_eq_self (h : Named names entries) : ofEntries entries = entries :=
  foldl_insert (m := []) h

end Mapping

namespace Value

theorem exists_of_entriesPlain {key v : Value} {entries : List (Value × Value)}
    (h : entriesPlain ((key,v) :: entries) = true) : ∃ name, key = text name ∧
      Mapping.get? name entries = none ∧ v.isPlain = true ∧ entriesPlain entries = true := by
  cases key with
  | text name =>
    simp only [entriesPlain,Bool.and_eq_true,Option.isNone_iff_eq_none] at h
    exact ⟨name,rfl,h.1.1,h.1.2,h.2⟩
  | _ => cases h

/-- The keys of a plain mapping are distinct texts. -/
theorem exists_named {entries : List (Value × Value)} (h : entriesPlain entries = true) :
    ∃ names, Mapping.Named names entries := by
  induction entries with
  | nil => exact ⟨[],rfl,List.nodup_nil⟩
  | cons entry entries ih =>
    obtain ⟨name,hkey,hget,-,hentries⟩ := exists_of_entriesPlain h
    obtain ⟨names,hkeys,hnodup⟩ := ih hentries
    have hname : name ∉ names := by
      rw [Mapping.get?_eq_none_iff,hkeys] at hget
      simpa using hget
    exact ⟨name :: names,congrArg₂ List.cons hkey hkeys,List.nodup_cons.mpr ⟨hname,hnodup⟩⟩

theorem keys_entriesUntupled (entries : List (Value × Value)) :
    (entriesUntupled entries).map Prod.fst = entries.map Prod.fst := by
  induction entries with
  | nil => rfl
  | cons entry entries ih => exact congrArg (entry.1 :: ·) ih

theorem ofEntries_entriesUntupled {entries : List (Value × Value)}
    (h : entriesPlain entries = true) :
    Mapping.ofEntries (entriesUntupled entries) = entriesUntupled entries := by
  obtain ⟨names,hkeys,hnodup⟩ := exists_named h
  exact Mapping.ofEntries_eq_self ⟨(keys_entriesUntupled entries).trans hkeys,hnodup⟩

end Value

namespace Json

theorem fourDigits_hexText {n : Nat} (h : n < 0x20) : FourDigits n (hexText 4 n) := by
  have hall : ∀ n < 0x20, (hexText 4 n).length = 4 ∧ natInBase? 16 (hexText 4 n) = some n := by
    decide
  exact hall n h

theorem charWritten_jsonChar (c : Char) : CharWritten c (jsonChar c) := by
  unfold jsonChar
  split_ifs with hquote hslash hn hr ht hb hf hcontrol
  · exact .escape (by simp [hquote,escapes])
  · exact .escape (by simp [hslash,escapes])
  · exact .escape (by simp [hn,escapes])
  · exact .escape (by simp [hr,escapes])
  · exact .escape (by simp [ht,escapes])
  · obtain rfl : c = '\x08' := Char.toNat_inj.mp hb
    exact .escape (by decide)
  · obtain rfl : c = '\x0c' := Char.toNat_inj.mp hf
    exact .escape (by decide)
  · exact .code (fourDigits_hexText hcontrol)
  · exact .plain (Nat.le_of_not_lt hcontrol) hquote hslash

theorem charsWritten_flatMap_jsonChar (t : Text) : CharsWritten t (t.flatMap jsonChar) := by
  induction t with
  | nil => exact .nil
  | cons c t ih => exact .cons (charWritten_jsonChar c) ih

theorem head?_natText {n : Nat} (h : n ≠ 0) : (natText n).head? ≠ some '0' := by
  induction n using Nat.strong_induction_on with
  | h n ih =>
    unfold natText
    obtain hlt | hle := Nat.lt_or_ge n 10
    · have hall : ∀ n < 10, n ≠ 0 → some n.digitChar ≠ some '0' := by decide
      rw [Nat.toDigits_of_lt_base hlt]
      exact hall n hlt h
    · rw [Nat.toDigits_of_base_le (by decide) hle,List.head?_append_of_ne_nil _ Nat.toDigits_ne_nil]
      exact ih (n / 10) (by omega) (by omega)

/-- No digit zero stands in front of a written number, which may be the number zero. -/
theorem wholeWritten_natText (n : Nat) : WholeWritten n (natText n) := by
  refine ⟨natOfText?_natText n,fun hhead => ?_⟩
  by_cases h : n = 0
  · rw [h]
    rfl
  · exact absurd hhead (head?_natText h)

theorem writes_intText (i : Int) : Writes (.value (.int i)) (intText i) := by
  have h := Writes.int (decide (i < 0)) (wholeWritten_natText i.natAbs)
  rwa [signed_natAbs,← numeral,← intText_eq_numeral] at h

/-- A value may stand without blanks. -/
theorem Writes.bare {v : Value} {t : Text} (h : Writes (.value v) t) : Writes (.element v) t := by
  have := Writes.element spacing_nil h spacing_nil
  rwa [List.nil_append,List.append_nil] at this

theorem Writes.asMember {name t : Text} {v : Value} (h : Writes (.value v) t) :
    Writes (.member (.text name,v)) (jsonString name ++ ':' :: t) := by
  have hassoc : jsonString name ++ ':' :: t =
      [] ++ '"' :: (name.flatMap jsonChar ++ '"' :: ([] ++ ':' :: t)) := by simp [jsonString]
  rw [hassoc]
  exact .member spacing_nil (charsWritten_flatMap_jsonChar name) spacing_nil h.bare

theorem join_comma (part next : Text) (parts : List Text) :
    Text.join [','] (part :: next :: parts) = part ++ ',' :: Text.join [','] (next :: parts) := by
  rw [Text.join,List.append_assoc,List.singleton_append]
  exact fun h => absurd h (List.cons_ne_nil _ _)

end Json

open Json

namespace Value

/-- The result is there just if no number is too long, as `short` tells. -/
inductive Written (short : Bool) : Except Unwritable α → Prop where
  | ok {a : α} (h : short = true) : Written short (.ok a)
  | long (h : short = false) : Written short (.error .longNumeral)

theorem Written.map {short : Bool} {r : Except Unwritable α} (h : Written short r) (f : α → β) :
    Written short (r.map f) := by
  cases h with
  | ok h => exact .ok h
  | long h => exact .long h

theorem Written.bind {short short' : Bool} {r : Except Unwritable α} {f : α → Except Unwritable β}
    (h : Written short r) (hf : ∀ a, Written short' (f a)) : Written (short && short') (r >>= f) := by
  cases h with
  | @ok a h => exact h ▸ hf a
  | long h => exact .long (h ▸ Bool.false_and short')

theorem Written.isOk_iff {short : Bool} {r : Except Unwritable α} (h : Written short r) :
    (∃ a, r = .ok a) ↔ short = true := by
  cases h <;> simp [*]

theorem Written.eq_error {r : Except Unwritable α} (h : Written false r) : r = .error .longNumeral := by
  cases h with
  | ok h => cases h
  | long => rfl

mutual

theorem json_written : ∀ v : Value, v.isPlain = true → Written v.isWritable v.json
  | null, _ | bool _, _ | text _, _ => .ok rfl
  | int i, _ => by
    rw [isWritable,json,numeralText]
    split
    · exact .ok ‹_›
    · exact .long (Bool.not_eq_true _ ▸ ‹_›)
  | list items, h => (jsonItems_written items h).map _
  | tuple items, h => (jsonItems_written items h).map _
  | mapping entries, h => (jsonEntries_written entries h).map _

theorem jsonItems_written : ∀ items : List Value, arePlain items = true →
    Written (areWritable items) (jsonItems items)
  | [], _ => .ok rfl
  | item :: items, h => by
    obtain ⟨hitem,hitems⟩ := Bool.and_eq_true_iff.mp h
    exact (json_written item hitem).bind fun _ => (jsonItems_written items hitems).map _

theorem jsonEntries_written : ∀ entries : List (Value × Value), entriesPlain entries = true →
    Written (entriesWritable entries) (jsonEntries entries)
  | [], _ => .ok rfl
  | (key,value) :: entries, h => by
    obtain ⟨name,rfl,-,hvalue,hentries⟩ := exists_of_entriesPlain h
    exact (json_written value hvalue).bind fun _ => (jsonEntries_written entries hentries).map _

end

section
variable {item next value : Value} {items : List Value} {entries : List (Value × Value)} {name : Text}

theorem jsonItems_cons_eq_ok {parts : List Text} : jsonItems (item :: items) = .ok parts ↔
    ∃ part, item.json = .ok part ∧ ∃ rest, jsonItems items = .ok rest ∧ part :: rest = parts := by
  simp only [jsonItems,bind_eq_ok,pure,Except.pure,Except.ok.injEq]

theorem jsonEntries_cons_eq_ok {parts : List Text} :
    jsonEntries ((text name,value) :: entries) = .ok parts ↔ ∃ part, value.json = .ok part ∧
      ∃ rest, jsonEntries entries = .ok rest ∧ (jsonString name ++ ':' :: part) :: rest = parts := by
  simp [jsonEntries,jsonKey,bind_eq_ok,pure,Except.pure]

end

mutual

theorem writes_json : ∀ v : Value, v.isPlain = true → ∀ t, v.json = .ok t →
    Writes (.value v.untupled) t
  | null, _ => fun _ ht => Except.ok.inj ht ▸ .null
  | bool b, _ => fun _ ht => Except.ok.inj ht ▸ .bool b
  | int i, _ => fun _ ht => (numeralText_eq_ok.mp ht).2 ▸ writes_intText i
  | text s, _ => fun _ ht => Except.ok.inj ht ▸ .text (charsWritten_flatMap_jsonChar s)
  | list items, h => fun _ ht => by
    obtain ⟨parts,hparts,rfl⟩ := map_eq_ok.mp ht
    exact writes_array items h parts hparts
  | tuple items, h => fun _ ht => by
    obtain ⟨parts,hparts,rfl⟩ := map_eq_ok.mp ht
    exact writes_array items h parts hparts
  | mapping [], _ => fun _ ht => Except.ok.inj ht ▸ .noMembers spacing_nil
  | mapping (entry :: entries), h => fun _ ht => by
    obtain ⟨parts,hparts,rfl⟩ := map_eq_ok.mp ht
    have hwrites := Writes.mapping
      (writes_members (entry :: entries) h parts hparts (List.cons_ne_nil _ _))
    rwa [ofEntries_entriesUntupled h] at hwrites

theorem writes_array : ∀ items : List Value, arePlain items = true → ∀ parts,
    jsonItems items = .ok parts → Writes (.value (.list (itemsUntupled items))) (jsonArray parts)
  | [], _ => fun _ ht => Except.ok.inj ht ▸ .noItems spacing_nil
  | item :: items, h => fun parts ht =>
    .list (writes_items (item :: items) h parts ht (List.cons_ne_nil _ _))

theorem writes_items : ∀ items : List Value, arePlain items = true → ∀ parts,
    jsonItems items = .ok parts → items ≠ [] →
    Writes (.items (itemsUntupled items)) (Text.join [','] parts)
  | [], _ => fun _ _ hne => absurd rfl hne
  | [item], h => fun _ ht _ => by
    obtain ⟨part,hpart,_,hrest,rfl⟩ := jsonItems_cons_eq_ok.mp ht
    obtain rfl := Except.ok.inj hrest
    exact .lastItem (writes_json item (Bool.and_eq_true_iff.mp h).1 part hpart).bare
  | item :: next :: items, h => fun _ ht _ => by
    obtain ⟨hitem,hitems⟩ := Bool.and_eq_true_iff.mp h
    obtain ⟨part,hpart,parts,hparts,rfl⟩ := jsonItems_cons_eq_ok.mp ht
    have hnext := writes_items (next :: items) hitems parts hparts (List.cons_ne_nil _ _)
    obtain ⟨_,-,_,-,rfl⟩ := jsonItems_cons_eq_ok.mp hparts
    rw [join_comma]
    exact .moreItems (writes_json item hitem part hpart).bare hnext

theorem writes_members : ∀ entries : List (Value × Value), entriesPlain entries = true → ∀ parts,
    jsonEntries entries = .ok parts → entries ≠ [] →
    Writes (.members (entriesUntupled entries)) (Text.join [','] parts)
  | [], _ => fun _ _ hne => absurd rfl hne
  | [(key,value)], h => fun _ ht _ => by
    obtain ⟨name,rfl,-,hvalue,-⟩ := exists_of_entriesPlain h
    obtain ⟨part,hpart,_,hrest,rfl⟩ := jsonEntries_cons_eq_ok.mp ht
    obtain rfl := Except.ok.inj hrest
    exact .lastMember (writes_json value hvalue part hpart).asMember
  | (key,value) :: (other,next) :: entries, h => fun _ ht _ => by
    obtain ⟨name,rfl,-,hvalue,hentries⟩ := exists_of_entriesPlain h
    obtain ⟨part,hpart,parts,hparts,rfl⟩ := jsonEntries_cons_eq_ok.mp ht
    have hnext := writes_members ((other,next) :: entries) hentries parts hparts (List.cons_ne_nil _ _)
    obtain ⟨_,rfl,-⟩ := exists_of_entriesPlain hentries
    obtain ⟨_,-,_,-,rfl⟩ := jsonEntries_cons_eq_ok.mp hparts
    rw [join_comma]
    exact .moreMembers (writes_json value hvalue part hpart).asMember hnext

end

mutual

theorem json_untupled : ∀ v : Value, v.untupled.json = v.json
  | null => rfl
  | bool _ => rfl
  | int _ => rfl
  | float _ => rfl
  | text _ => rfl
  | foreign _ => rfl
  | list items => by rw [untupled,json,json,jsonItems_untupled items]
  | tuple items => by rw [untupled,json,json,jsonItems_untupled items]
  | mapping entries => by rw [untupled,json,json,jsonEntries_untupled entries]

theorem jsonItems_untupled : ∀ items : List Value, jsonItems (itemsUntupled items) = jsonItems items
  | [] => rfl
  | item :: items => by
    rw [itemsUntupled,jsonItems,jsonItems,json_untupled item,jsonItems_untupled items]

theorem jsonEntries_untupled : ∀ entries : List (Value × Value),
    jsonEntries (entriesUntupled entries) = jsonEntries entries
  | [] => rfl
  | (key,value) :: entries => by
    rw [entriesUntupled,jsonEntries,jsonEntries,json_untupled value,jsonEntries_untupled entries]

end

/-- A plain mapping has a text just if no number in it is too long. The text is a document for the
mapping, with lists in the place of tuples, and for nothing else; it is decoded as that, and
whatever else prints alike has the same entries in the same order. -/
theorem display_mapping_document (entries : Mapping) (h : (mapping entries).isPlain = true) :
    ((∃ t, (mapping entries).display = .ok t) ↔ (mapping entries).isWritable = true) ∧
    ((mapping entries).isWritable = false → (mapping entries).display = .error .longNumeral) ∧
    ∀ t, (mapping entries).display = .ok t → Document (mapping entries).untupled t ∧
      (∀ v, Document v t → v = (mapping entries).untupled) ∧
      decode? t = some (mapping entries).untupled ∧
      ∀ others : Mapping, (mapping others).isPlain = true → ((mapping others).display = .ok t ↔
        (mapping others).untupled = (mapping entries).untupled) := by
  have hwritten := json_written (mapping entries) h
  have hdocument (m : Mapping) (hm : (mapping m).isPlain = true) (t : Text)
      (ht : (mapping m).display = .ok t) : Document (mapping m).untupled t :=
    (writes_json (mapping m) hm t ht).bare
  refine ⟨hwritten.isOk_iff,fun hlong => ?_,fun t ht => ?_⟩
  · rw [hlong] at hwritten
    exact hwritten.eq_error
  · have hthis := hdocument entries h t ht
    refine ⟨hthis,fun v hv => hv.unique hthis,decode?_eq_some hthis,
      fun others hothers => ⟨fun hsame => ?_,fun heq => ?_⟩⟩
    · exact (hdocument others hothers t hsame).unique hthis
    · calc (mapping others).display = (mapping others).untupled.json := (json_untupled _).symm
        _ = (mapping entries).untupled.json := by rw [heq]
        _ = (mapping entries).display := json_untupled _
        _ = .ok t := ht

/-- Quotes, backslashes and controls are read back as they were, also in a name. -/
theorem display_mapping_document_escaped :
    let entries : Mapping :=
      [(text "a\"\n".toList,tuple [int (-120),text "\x01\\\x7f".toList,null]),
        (text [],mapping [(text "b".toList,list [])])]
    let printed :=
      "\x7b\"a\\\"\\n\":[-120,\"\\u0001\\\\\x7f\",null],\"\":\x7b\"b\":[]\x7d\x7d".toList
    (mapping entries).isPlain = true ∧ (mapping entries).display = .ok printed ∧
      decode? printed = some (mapping
        [(text "a\"\n".toList,list [int (-120),text "\x01\\\x7f".toList,null]),
          (text [],mapping [(text "b".toList,list [])])]) := by
  intro entries printed
  have hplain : (mapping entries).isPlain = true := by decide
  have hprinted : (mapping entries).display = .ok printed := by decide +kernel
  obtain ⟨-,-,hdocument⟩ := display_mapping_document entries hplain
  exact ⟨hplain,hprinted,(hdocument printed hprinted).2.2.1⟩

/-- A mapping with a number of 4301 digits is plain and has no text. -/
theorem display_mapping_overlong :
    let entries : Mapping := [(text ['a'],int (Nat.pow 10 numeralLimit))]
    (mapping entries).isPlain = true ∧ (mapping entries).display = .error .longNumeral := by
  have hplain : ∀ i, (mapping [(text ['a'],int i)]).isPlain = true := fun _ => rfl
  have hrefused : ∀ i, isShort i = false →
      (mapping [(text ['a'],int i)]).display = .error .longNumeral := by
    intro i hi
    rw [display,json,jsonEntries,jsonKey,json,numeralText,hi]
    rfl
  exact ⟨hplain _,hrefused _ isShort_overlong⟩

/-- Other writers may put blanks between the tokens. Of two members with one name the last counts. -/
example : (decode? "\x7b\"a\" : [1 ,\"\\u00e9\\/\"],\"a\":-0 \x7d ".toList).map json =
    some (.ok "\x7b\"a\":0\x7d".toList) := by decide +kernel

end Value

end Stencil

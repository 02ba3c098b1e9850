import Stencil.Proofs.Settings.Normal
import Stencil.Settings.OfMapping

/-! # Options in a mapping

Options are read from a mapping by what stands last under the spellings of each. The first key that
spells no option is reported before anything else; if there is none, the first option that does not
admit what it is given is. What is read is the same again when it is written back.
-/
namespace Stencil

namespace OptionName

def IsKeyOf (name : OptionName) (key : Value) : Prop := ∃ spelling ∈ name.spellings, key = .text spelling

/-- The values that an option can be given. -/
def Admits : OptionName → Value → Prop
  | trimEndLine,v => ∃ b, v = .bool b
  | squash,v => v = .text "on".toList ∨ v = .text "off".toList
  | maxDepth,v => ∃ i : Int, v = .int i ∧ 1 ≤ i

/-- What is said of a value that the option does not admit. -/
def cause : OptionName → Value → SettingCause
  | trimEndLine,_ => .notABoolean
  | squash,v => .notASquashMode v
  | maxDepth,v => .notADepth v

/-- The options that are looked at before this one. -/
def earlier : OptionName → List OptionName
  | trimEndLine => []
  | squash => [trimEndLine]
  | maxDepth => [trimEndLine,squash]

variable {name other : OptionName} {key : Value}

theorem any_isText_iff : name.spellings.any key.isText = true ↔ name.IsKeyOf key := by
  simp [IsKeyOf,Value.isText_iff]

/-- No two options share a spelling. -/
theorem IsKeyOf.unique (h : name.IsKeyOf key) (h' : other.IsKeyOf key) : name = other := by
  obtain ⟨spelling,hspelling,rfl⟩ := h
  obtain ⟨_,hother,heq⟩ := h'
  cases heq
  have hdisjoint : ∀ name other : OptionName, name ≠ other →
      ∀ spelling ∈ name.spellings, spelling ∉ other.spellings := by
    intro name other hne
    cases name <;> cases other <;> first | exact absurd rfl hne | decide
  by_contra hne
  exact hdisjoint name other hne spelling hspelling hother

theorem mem_all (name : OptionName) : name ∈ [trimEndLine,squash,maxDepth] := by
  cases name <;> simp

theorem ofKey?_eq_some_iff : ofKey? key = some name ↔ name.IsKeyOf key := by
  have hfound : ∀ other, ofKey? key = some other → other.IsKeyOf key := fun other h =>
    any_isText_iff.mp (List.find?_some (p := fun name : OptionName => name.spellings.any key.isText) h)
  refine ⟨hfound name,fun h => ?_⟩
  cases hkey : ofKey? key with
  | none => exact absurd (any_isText_iff.mpr h) (List.find?_eq_none.mp hkey name (mem_all name))
  | some other => rw [h.unique (hfound other hkey)]

theorem isSome_ofKey?_iff : (ofKey? key).isSome = true ↔ ∃ name : OptionName, name.IsKeyOf key :=
  Option.isSome_iff_exists.trans (exists_congr fun _ => ofKey?_eq_some_iff)

theorem earlier_or_eq (name other : OptionName) :
    name ∈ other.earlier ∨ name = other ∨ other ∈ name.earlier := by
  cases name <;> cases other <;> simp [earlier]

end OptionName

namespace Options
variable {entries : Mapping} {name other : OptionName} {key v w : Value} {o : Options}
  {problem : SettingProblem}

/-- `v` stands in the last of the entries whose key spells the option. -/
def LastGiven (name : OptionName) (entries : Mapping) (v : Value) : Prop :=
  ∃ before key after, entries = before ++ (key,v) :: after ∧ name.IsKeyOf key ∧
    ∀ entry ∈ after, ¬name.IsKeyOf entry.1

def Absent (name : OptionName) (entries : Mapping) : Prop := ∀ entry ∈ entries, ¬name.IsKeyOf entry.1

def AllKnown (entries : Mapping) : Prop := ∀ entry ∈ entries, ∃ name : OptionName, name.IsKeyOf entry.1

/-- `key` is the first of the keys that spells no option. -/
def FirstUnknown (entries : Mapping) (key : Value) : Prop :=
  ∃ before v after, entries = before ++ (key,v) :: after ∧ (∀ name : OptionName, ¬name.IsKeyOf key) ∧
    AllKnown before

/-- What the options say of one of them, as the value that gives it. -/
def field (o : Options) : OptionName → Value
  | .trimEndLine => .bool o.trimEndLine
  | .squash => .text o.squash.name
  | .maxDepth => .int o.maxDepth

/-- What is wrong with a mapping of options, and comes first. -/
inductive Faulty (entries : Mapping) : SettingProblem → Prop where
  | unknown {key : Value} (first : FirstUnknown entries key) : Faulty entries ⟨.unknownOption key,[]⟩
  | value {name : OptionName} {v : Value} (known : AllKnown entries) (given : LastGiven name entries v)
    (refused : ¬name.Admits v)
    (before : ∀ other ∈ name.earlier, ∀ w, LastGiven other entries w → other.Admits w) :
    Faulty entries ⟨name.cause v,[name.text]⟩

/-- `v` is what the entries give for the option, and they do not give what it does not admit. -/
structure Settles (name : OptionName) (entries : Mapping) (v : Value) : Prop where
  given : ∀ w, LastGiven name entries w → name.Admits w ∧ v = w
  absent : Absent name entries → v = field {} name

/-- The options that a mapping without faults gives. -/
structure Gives (entries : Mapping) (o : Options) : Prop where
  known : AllKnown entries
  settled : ∀ name, Settles name entries (o.field name)

theorem unknownKey?_eq_some_iff : unknownKey? entries = some key ↔ FirstUnknown entries key := by
  simp only [unknownKey?,Option.map_eq_some_iff,List.find?_eq_some_iff_append]
  constructor
  · rintro ⟨⟨_,v⟩,⟨hkey,before,after,hentries,hbefore⟩,rfl⟩
    refine ⟨before,v,after,hentries,?_,?_⟩
    · simpa [Option.eq_none_iff_forall_ne_some,OptionName.ofKey?_eq_some_iff] using hkey
    · simpa [AllKnown,OptionName.isSome_ofKey?_iff] using hbefore
  · rintro ⟨before,v,after,hentries,hkey,hbefore⟩
    refine ⟨(key,v),⟨?_,before,after,hentries,?_⟩,rfl⟩
    · simpa [Option.eq_none_iff_forall_ne_some,OptionName.ofKey?_eq_some_iff] using hkey
    · simpa [AllKnown,OptionName.isSome_ofKey?_iff] using hbefore

theorem unknownKey?_eq_none_iff : unknownKey? entries = none ↔ AllKnown entries := by
  rw [unknownKey?,Option.map_eq_none_iff,List.find?_eq_none]
  apply forall₂_congr
  intro entry _
  rw [← OptionName.isSome_ofKey?_iff,Option.isNone_iff_eq_none,Option.isSome_iff_ne_none]

theorem FirstUnknown.unique {key' : Value} (h : FirstUnknown entries key)
    (h' : FirstUnknown entries key') : key = key' := by
  rw [← unknownKey?_eq_some_iff] at h h'
  exact Option.some.inj (h.symm.trans h')

theorem FirstUnknown.not_allKnown (h : FirstUnknown entries key) : ¬AllKnown entries := by
  obtain ⟨before,v,after,rfl,hkey,-⟩ := h
  intro hknown
  obtain ⟨name,hname⟩ := hknown (key,v) (by simp)
  exact hkey name hname

theorem given?_eq_some_iff : given? name entries = some v ↔ LastGiven name entries v := by
  simp only [given?,Option.map_eq_some_iff,List.find?_eq_some_iff_append]
  constructor
  · rintro ⟨⟨key,_⟩,⟨hkey,after,before,hentries,hafter⟩,rfl⟩
    refine ⟨before.reverse,key,after.reverse,?_,?_,?_⟩
    · simpa using congrArg List.reverse hentries
    · simpa [OptionName.ofKey?_eq_some_iff] using hkey
    · simpa [OptionName.ofKey?_eq_some_iff] using hafter
  · rintro ⟨before,key,after,rfl,hkey,hafter⟩
    refine ⟨(key,v),⟨?_,after.reverse,before.reverse,?_,?_⟩,rfl⟩
    · simpa [OptionName.ofKey?_eq_some_iff] using hkey
    · simp
    · simpa [OptionName.ofKey?_eq_some_iff] using hafter

theorem given?_eq_none_iff : given? name entries = none ↔ Absent name entries := by
  simp [given?,Absent,OptionName.ofKey?_eq_some_iff]

theorem LastGiven.unique (h : LastGiven name entries v) (h' : LastGiven name entries w) : v = w := by
  rw [← given?_eq_some_iff] at h h'
  exact Option.some.inj (h.symm.trans h')

theorem lastGiven_or_absent (name : OptionName) (entries : Mapping) :
    (∃ v, LastGiven name entries v) ∨ Absent name entries := by
  cases hgiven : given? name entries with
  | none => exact Or.inr (given?_eq_none_iff.mp hgiven)
  | some v => exact Or.inl ⟨v,given?_eq_some_iff.mp hgiven⟩

/-- Reads just the values that the option admits, and `toValue` gives them back. -/
def Reads (name : OptionName) (read? : Value → Option α) (toValue : α → Value) : Prop :=
  ∀ v, (¬name.Admits v ∧ read? v = none) ∨ ∃ a, name.Admits v ∧ read? v = some a ∧ toValue a = v

theorem reads_trimEndLine : Reads .trimEndLine readBool? Value.bool := by
  intro v
  cases v with
  | bool b => exact Or.inr ⟨b,⟨b,rfl⟩,rfl,rfl⟩
  | _ => exact Or.inl ⟨by simp [OptionName.Admits],rfl⟩

theorem reads_squash : Reads .squash readSquash? fun mode => .text mode.name := by
  intro v
  by_cases hon : v = .text SquashMode.on.name
  · exact Or.inr ⟨.on,Or.inl hon,hon ▸ rfl,hon.symm⟩
  by_cases hoff : v = .text SquashMode.off.name
  · exact Or.inr ⟨.off,Or.inr hoff,hoff ▸ rfl,hoff.symm⟩
  refine Or.inl ⟨not_or_intro hon hoff,?_⟩
  cases v with
  | text t =>
    have hnot : ∀ mode : SquashMode, mode.name ≠ t := by
      rintro (_ | _) rfl
      · exact hon rfl
      · exact hoff rfl
    simp [readSquash?,Value.toText?,SquashMode.ofName?,hnot]
  | _ => rfl

theorem reads_maxDepth : Reads .maxDepth readDepth? fun n => .int n := by
  intro v
  cases v with
  | int i =>
    cases i with
    | ofNat n =>
      cases n with
      | zero => exact Or.inl ⟨by simp [OptionName.Admits],rfl⟩
      | succ n =>
        have hpos : 1 ≤ ((n + 1 : Nat) : Int) := by omega
        exact Or.inr ⟨n + 1,⟨_,rfl,hpos⟩,rfl,rfl⟩
    | negSucc n =>
      refine Or.inl ⟨?_,rfl⟩
      rintro ⟨_,⟨⟩,hpos⟩
      omega
  | _ => exact Or.inl ⟨by simp [OptionName.Admits],rfl⟩

/-- What reading the option can come to. -/
inductive Settled (name : OptionName) (entries : Mapping) (toValue : α → Value) :
    Except SettingProblem α → Prop where
  | refused {v : Value} (given : LastGiven name entries v) (refused : ¬name.Admits v) :
    Settled name entries toValue (.error ⟨name.cause v,[name.text]⟩)
  | settled {a : α} (h : Settles name entries (toValue a)) : Settled name entries toValue (.ok a)

theorem readOr_settled {read? : Value → Option α} {toValue : α → Value} {default : α}
    (h : Reads name read? toValue) (hdefault : toValue default = field {} name) (entries : Mapping) :
    Settled name entries toValue (readOr name name.cause read? default entries) := by
  unfold readOr
  cases hgiven : given? name entries with
  | none =>
    refine .settled ⟨fun w hw => ?_,fun _ => hdefault⟩
    rw [given?_eq_some_iff.mpr hw] at hgiven
    cases hgiven
  | some v =>
    have hlast := given?_eq_some_iff.mp hgiven
    obtain ⟨hrefused,hread⟩ | ⟨a,hadmits,hread,hvalue⟩ := h v
    · simp only [hread]
      exact .refused hlast hrefused
    · simp only [hread]
      refine .settled ⟨fun w hw => ?_,fun habsent => ?_⟩
      · cases hlast.unique hw
        exact ⟨hadmits,hvalue⟩
      · rw [given?_eq_none_iff.mpr habsent] at hgiven
        cases hgiven

/-- What reading all options can come to. -/
inductive Judged (entries : Mapping) : Except SettingProblem Options → Prop where
  | faulty {problem : SettingProblem} (h : Faulty entries problem) : Judged entries (.error problem)
  | gives {o : Options} (h : Gives entries o) : Judged entries (.ok o)

theorem Settles.admits (h : Settles name entries v) (hw : LastGiven name entries w) : name.Admits w :=
  (h.given w hw).1

theorem ofEntries_judged (entries : Mapping) : Judged entries (ofEntries entries) := by
  unfold ofEntries
  cases hkey : unknownKey? entries with
  | some key => exact .faulty (.unknown (unknownKey?_eq_some_iff.mp hkey))
  | none =>
    have hknown := unknownKey?_eq_none_iff.mp hkey
    have htrim : Settled .trimEndLine entries Value.bool
        (readOr .trimEndLine (fun _ => .notABoolean) readBool? true entries) :=
      readOr_settled reads_trimEndLine rfl entries
    have hsquash : Settled .squash entries (fun mode => .text (SquashMode.name mode))
        (readOr .squash .notASquashMode readSquash? .on entries) :=
      readOr_settled reads_squash rfl entries
    have hdepth : Settled .maxDepth entries (fun n : Nat => .int n)
        (readOr .maxDepth .notADepth readDepth? 100 entries) :=
      readOr_settled reads_maxDepth rfl entries
    dsimp only
    generalize readOr .trimEndLine (fun _ => .notABoolean) readBool? true entries = trim at htrim ⊢
    generalize readOr .squash .notASquashMode readSquash? .on entries = squash at hsquash ⊢
    generalize readOr .maxDepth .notADepth readDepth? 100 entries = depth at hdepth ⊢
    cases htrim with
    | refused given refused => exact .faulty (.value hknown given refused (by simp [OptionName.earlier]))
    | settled htrim =>
      cases hsquash with
      | refused given refused =>
        refine .faulty (.value hknown given refused ?_)
        simpa [OptionName.earlier] using fun w => htrim.admits
      | settled hsquash =>
        cases hdepth with
        | refused given refused =>
          refine .faulty (.value hknown given refused ?_)
          simpa [OptionName.earlier] using ⟨fun w => htrim.admits,fun w => hsquash.admits⟩
        | settled hdepth =>
          refine .gives ⟨hknown,fun name => ?_⟩
          cases name with
          | trimEndLine => exact htrim
          | squash => exact hsquash
          | maxDepth => exact hdepth

theorem Faulty.unique {other : SettingProblem} (h : Faulty entries problem)
    (h' : Faulty entries other) : problem = other := by
  cases h with
  | unknown first =>
    cases h' with
    | unknown first' => rw [first.unique first']
    | value known => exact absurd known first.not_allKnown
  | @value name v known given refused before =>
    cases h' with
    | unknown first => exact absurd known first.not_allKnown
    | @value name' w _ given' refused' before' =>
      obtain hearlier | rfl | hlater := OptionName.earlier_or_eq name name'
      · exact absurd (before' name hearlier v given) refused
      · rw [given.unique given']
      · exact absurd (before name' hlater w given') refused'

theorem Gives.not_faulty (h : Gives entries o) : ¬Faulty entries problem := by
  intro hfaulty
  cases hfaulty with
  | unknown first => exact first.not_allKnown h.known
  | value _ given refused => exact refused ((h.settled _).admits given)

theorem Settles.unique (h : Settles name entries v) (h' : Settles name entries w) : v = w := by
  obtain ⟨given,hgiven⟩ | habsent := lastGiven_or_absent name entries
  · exact (h.given given hgiven).2.trans (h'.given given hgiven).2.symm
  · exact (h.absent habsent).trans (h'.absent habsent).symm

/-- Options that say the same of each of them are the same. -/
theorem ext_field {other : Options} (h : ∀ name, o.field name = other.field name) : o = other := by
  have htrim := h .trimEndLine
  have hsquash := h .squash
  have hdepth := h .maxDepth
  rcases o with ⟨trim,mode,depth⟩
  rcases other with ⟨trim',mode',depth'⟩
  have hname : ∀ mode mode' : SquashMode, mode.name = mode'.name → mode = mode' := by
    rintro (_ | _) (_ | _) <;> simp [SquashMode.name]
  simp only [field,Value.bool.injEq,Value.text.injEq,Value.int.injEq,Int.natCast_inj]
    at htrim hsquash hdepth
  rw [htrim,hname _ _ hsquash,hdepth]

theorem Gives.unique {other : Options} (h : Gives entries o) (h' : Gives entries other) : o = other :=
  ext_field fun name => (h.settled name).unique (h'.settled name)

theorem ofEntries_eq_error_iff : ofEntries entries = .error problem ↔ Faulty entries problem := by
  have hjudged := ofEntries_judged entries
  generalize ofEntries entries = result at hjudged ⊢
  cases hjudged with
  | @faulty problem' h =>
    rw [Except.error.injEq]
    exact ⟨fun heq => heq ▸ h,h.unique⟩
  | gives h => exact ⟨fun heq => (nomatch heq),fun hfaulty => absurd hfaulty h.not_faulty⟩

theorem ofEntries_eq_ok_iff : ofEntries entries = .ok o ↔ Gives entries o := by
  have hjudged := ofEntries_judged entries
  generalize ofEntries entries = result at hjudged ⊢
  cases hjudged with
  | faulty h => exact ⟨fun heq => (nomatch heq),fun hgives => absurd h hgives.not_faulty⟩
  | @gives o' h =>
    rw [Except.ok.injEq]
    exact ⟨fun heq => heq ▸ h,h.unique⟩

theorem admits_default (name : OptionName) : name.Admits (field {} name) := by
  cases name with
  | trimEndLine => exact ⟨true,rfl⟩
  | squash => exact Or.inl rfl
  | maxDepth => exact ⟨100,rfl,by decide⟩

theorem Gives.admits (h : Gives entries o) (name : OptionName) : name.Admits (o.field name) := by
  obtain ⟨v,hv⟩ | habsent := lastGiven_or_absent name entries
  · obtain ⟨hadmits,hfield⟩ := (h.settled name).given v hv
    exact hfield ▸ hadmits
  · rw [(h.settled name).absent habsent]
    exact admits_default name

/-- The options as a mapping, each under the spelling that is chosen for it. -/
def spelled (spelling : OptionName → Text) (o : Options) : Mapping :=
  [.trimEndLine,.squash,.maxDepth].map fun name => (.text (spelling name),o.field name)

theorem gives_spelled {spelling : OptionName → Text} (hspelling : ∀ name, spelling name ∈ name.spellings)
    (ho : ∀ name : OptionName, name.Admits (o.field name)) (h : entries.Perm (o.spelled spelling)) :
    Gives entries o := by
  have hmem : ∀ entry, entry ∈ entries ↔
      ∃ name : OptionName, (.text (spelling name),o.field name) = entry := by
    intro entry
    rw [h.mem_iff,spelled,List.mem_map]
    exact exists_congr fun name => and_iff_right name.mem_all
  have hkey : ∀ name : OptionName, name.IsKeyOf (.text (spelling name)) :=
    fun name => ⟨spelling name,hspelling name,rfl⟩
  refine ⟨fun entry hentry => ?_,fun name => ⟨fun v hv => ?_,fun habsent => ?_⟩⟩
  · obtain ⟨name,rfl⟩ := (hmem entry).mp hentry
    exact ⟨name,hkey name⟩
  · obtain ⟨before,key,after,rfl,hname,-⟩ := hv
    obtain ⟨other,heq⟩ := (hmem (key,v)).mp (by simp)
    cases heq
    obtain rfl := hname.unique (hkey other)
    exact ⟨ho name,rfl⟩
  · exact absurd (hkey name) (habsent _ ((hmem _).mpr ⟨name,rfl⟩))

theorem isWritable_of_mem {entry : Value × Value} (h : Value.entriesWritable entries = true)
    (hentry : entry ∈ entries) : entry.1.isWritable = true ∧ entry.2.isWritable = true := by
  induction entries with
  | nil => cases hentry
  | cons first entries ih =>
    rcases first with ⟨key,v⟩
    simp only [Value.entriesWritable,Bool.and_eq_true] at h
    obtain rfl | hentry := List.mem_cons.mp hentry
    · exact h.1
    · exact ih h.2 hentry

theorem Faulty.isWritable (h : Faulty entries problem) (hentries : Value.entriesWritable entries = true) :
    problem.cause.isWritable = true := by
  cases h with
  | unknown first =>
    obtain ⟨before,v,after,rfl,-⟩ := first
    exact (isWritable_of_mem hentries List.mem_append_cons_self).1
  | @value name v _ given =>
    obtain ⟨before,key,after,rfl,-⟩ := given
    have hv : v.isWritable = true := (isWritable_of_mem hentries List.mem_append_cons_self).2
    cases name with
    | trimEndLine => rfl
    | squash => exact hv
    | maxDepth => exact hv

theorem mapError_ofSetting (h : ofEntries entries = .error problem) :
    (ofEntries entries).mapError Failure.ofSetting = .error (.settings problem) ↔
      problem.cause.isWritable = true := by
  rw [h,Except.mapError,Except.error.injEq,Failure.ofSetting]
  by_cases hwritable : problem.cause.isWritable = true
  · rw [if_pos hwritable]
    exact iff_of_true rfl hwritable
  · rw [if_neg hwritable]
    refine iff_of_false ?_ hwritable
    rintro ⟨⟩

/-- Options are refused just for what comes first of what is wrong with the mapping, and else they
are what the mapping gives. The refusal is told as a problem with settings just if the value that it
quotes can be written, as it can where all numbers of the mapping can. What is read is admitted, and
it is read again from its fields, in any order and under any of their spellings. -/
theorem ofEntries_first_problem (entries : Mapping) :
    (∀ problem, ofEntries entries = .error problem ↔ Faulty entries problem) ∧
    (∀ problem, Faulty entries problem →
      ((ofEntries entries).mapError Failure.ofSetting = .error (.settings problem) ↔
        problem.cause.isWritable = true) ∧
      (Value.entriesWritable entries = true → problem.cause.isWritable = true)) ∧
    (∀ o, ofEntries entries = .ok o ↔ Gives entries o) ∧
    ∀ o, ofEntries entries = .ok o → (∀ name : OptionName, name.Admits (o.field name)) ∧
      ∀ spelling : OptionName → Text, (∀ name, spelling name ∈ name.spellings) →
        ∀ again : Mapping, again.Perm (o.spelled spelling) → ofEntries again = .ok o := by
  refine ⟨fun problem => ofEntries_eq_error_iff,fun problem h => ⟨?_,h.isWritable⟩,
    fun o => ofEntries_eq_ok_iff,fun o h => ?_⟩
  · exact mapError_ofSetting (ofEntries_eq_error_iff.mpr h)
  · have hadmits := (ofEntries_eq_ok_iff.mp h).admits
    exact ⟨hadmits,fun spelling hspelling again hagain =>
      ofEntries_eq_ok_iff.mpr (gives_spelled hspelling hadmits hagain)⟩

/-- Bad values that are overridden do no harm. Of two that count the first option's is reported, and
a key that spells no option comes before both. -/
theorem ofEntries_first_problem_of_mixed :
    let key := fun name : String => Value.text name.toList
    let fine : Mapping := [(key "squash",.int 1),(key "maxDepth",.bool true),
      (key "trimEndLine",.bool false),(key "max_depth",.int 3),(key "squash",key "off")]
    let bad : Mapping := [(key "maxDepth",.int 0),(key "squash",key "no"),(key "max_depth",.int 7),
      (key "trimEndLine",.int 1)]
    let o : Options := ⟨false,.off,3⟩
    let again : Mapping := [(key "maxDepth",.int 3),(key "squash",key "off"),
      (key "trim_end_line",.bool false)]
    ofEntries fine = .ok o ∧ (∀ name : OptionName, name.Admits (o.field name)) ∧
      ofEntries again = .ok o ∧ Faulty (bad ++ [(.null,.null)]) ⟨.unknownOption .null,[]⟩ ∧
      Value.entriesWritable bad = true ∧ (ofEntries bad).mapError Failure.ofSetting =
        .error (.settings ⟨.notABoolean,["trim_end_line".toList]⟩) := by
  intro key fine bad o again
  have hfine : ofEntries fine = .ok o := by rfl
  have hbad : ofEntries bad = .error ⟨.notABoolean,["trim_end_line".toList]⟩ := by rfl
  have hunknown : ofEntries (bad ++ [(.null,.null)]) = .error ⟨.unknownOption .null,[]⟩ := by rfl
  have hwritable : Value.entriesWritable bad = true := by decide +kernel
  let spelling : OptionName → Text
    | .trimEndLine => "trim_end_line".toList
    | .squash => "squash".toList
    | .maxDepth => "maxDepth".toList
  have hspelling : ∀ name, spelling name ∈ name.spellings := by
    intro name
    cases name <;> decide
  have hagain : again.Perm (o.spelled spelling) := List.reverse_perm (o.spelled spelling)
  obtain ⟨hfaulty,htold,-,-⟩ := ofEntries_first_problem bad
  obtain ⟨-,-,-,hread⟩ := ofEntries_first_problem fine
  obtain ⟨hadmits,hback⟩ := hread o hfine
  refine ⟨hfine,hadmits,hback spelling hspelling again hagain,?_,hwritable,?_⟩
  · exact ((ofEntries_first_problem _).1 _).mp hunknown
  · obtain ⟨htells,hquoted⟩ := htold _ ((hfaulty _).mp hbad)
    exact htells.mpr (hquoted hwritable)

/-- A squash mode of 4301 digits cannot be told: the failure that it leads to is no problem with
settings, although no key is unknown. -/
theorem ofEntries_overlong :
    let entries : Mapping := [(.text OptionName.squash.text,.int (Nat.pow 10 numeralLimit))]
    AllKnown entries ∧
      Faulty entries ⟨.notASquashMode (.int (Nat.pow 10 numeralLimit)),[OptionName.squash.text]⟩ ∧
      (ofEntries entries).mapError Failure.ofSetting = .error (.broken .longNumeral) := by
  intro entries
  -- The number stays a variable in these, so that nothing evaluates the power.
  have hrefused : ∀ i, ofEntries [(.text OptionName.squash.text,.int i)] =
      .error ⟨.notASquashMode (.int i),[OptionName.squash.text]⟩ := fun i => by rfl
  have hlong : ∀ i, Value.isShort i = false → (Value.int i).isWritable = false := fun _ h => h
  refine ⟨fun entry hentry => ⟨.squash,?_⟩,ofEntries_eq_error_iff.mp (hrefused _),?_⟩
  · obtain rfl := List.mem_singleton.mp hentry
    exact ⟨OptionName.squash.text,List.mem_singleton.mpr rfl,rfl⟩
  · rw [hrefused _]
    apply congrArg Except.error
    rw [Failure.ofSetting,SettingCause.isWritable,hlong _ Value.isShort_overlong,
      if_neg Bool.false_ne_true]

end Options

end Stencil

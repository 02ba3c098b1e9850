import Mathlib
import Stencil.Proofs.Reading.Ceiling
import Stencil.Proofs.Reading.Shape
import Stencil.Template.Basic

/-! # Depth limits

A depth limit takes texts away and changes nothing about the others. What is read under a
limit is what is read under any larger one, as long as it opens no more levels than the
limit; and a text that is wrong in another way than by its depth is refused in the same
words, at the same place, under all larger limits.
-/
namespace Stencil
open Grammar
variable {ceiling : Nat}

namespace Grammar.Cut
variable {deep : α → Prop} {low high : Except Fault α} {a : α}

theorem ok_iff (h : Cut deep low high) (hs : ∀ a, low = .ok a → ¬deep a) :
    low = .ok a ↔ high = .ok a ∧ ¬deep a := by
  cases h with
  | same => exact ⟨fun ha => ⟨ha,hs a ha⟩,And.left⟩
  | stopped _ hr =>
    constructor
    · intro ha
      cases ha
    · rintro ⟨ha,hd⟩
      exact absurd (hr a ha) hd

theorem ok_again (h : Cut deep low high) (ha : low = .ok a) : high = .ok a := by
  cases h with
  | same => exact ha
  | stopped _ _ => cases ha

theorem error_again (h : Cut deep low high) {fault : Fault} (he : low = .error fault)
    (hf : fault.problem ≠ .tooDeep) : high = .error fault := by
  cases h with
  | same => exact he
  | stopped hdeep _ =>
    obtain rfl := Except.error.inj he
    exact absurd hdeep hf

/-- What more levels accept is accepted on fewer, unless for its depth. -/
theorem ok_of_not_tooDeep (h : Cut deep low high) (ha : high = .ok a)
    (hf : ∀ fault, low = .error fault → fault.problem ≠ .tooDeep) : low = .ok a := by
  cases h with
  | same => exact ha
  | stopped hdeep _ => exact absurd hdeep (hf _ rfl)

end Grammar.Cut

section Levels
variable {levels levels' : Nat} (hle : levels ≤ levels') (source : Text)
include hle

theorem cut_readBlocks :
    Cut (levels < blocksNesting ·) (readBlocks levels source) (readBlocks levels' source) := by
  refine (filtered_blocks hle _).bind_same ?_
  rintro ⟨ys,c⟩ hp xs hxs
  dsimp only at hxs
  split at hxs
  · obtain rfl := Except.ok.inj hxs
    exact hp
  · cases hxs

theorem cut_readCondition :
    Cut (levels < ·.nesting) (readCondition levels source) (readCondition levels' source) := by
  refine (filtered_condition hle _).bind_same fun p hp => ?_
  exact gives_bind fun _ => gives_pure hp

end Levels

theorem levelsFor_natCast (d : Nat) : levelsFor ceiling d = min d ceiling := rfl

theorem levelsFor_le {d D : Nat} (h : d ≤ D) : levelsFor ceiling d ≤ levelsFor ceiling D := by
  rw [levelsFor_natCast,levelsFor_natCast]
  omega

/-- Only the message of a text that is too deep tells the limit. -/
theorem Problem.message_eq {problem : Problem} (h : problem ≠ .tooDeep) (ceiling : Nat) (limit limit' : Int) :
    problem.message ceiling limit = problem.message ceiling limit' := by
  cases problem with
  | tooDeep => exact absurd rfl h
  | _ => rfl

theorem Refusal.isTooDeep_iff {refusal : Refusal} :
    refusal.isTooDeep = true ↔ refusal.fault.problem = .tooDeep := decide_eq_true_iff

/-- What `read` reads under a limit is what it reads under a larger one, less what opens more
levels than the limit; what it refuses for another reason than depth it refuses alike. -/
structure LimitFilters (read : Int → Outcome α) (nesting : α → Nat) : Prop where
  ok_iff : ∀ d D : Nat, d < D → ∀ a,
    (read d).result = .ok a ↔ (read D).result = .ok a ∧ nesting a ≤ d
  refused : ∀ d D : Nat, d ≤ D → ∀ refusal, (read d).result = .error (.refused refusal) →
    refusal.isTooDeep = false → ∃ refusal', (read D).result = .error (.refused refusal') ∧
      refusal'.isTooDeep = false ∧ refusal'.message = refusal.message ∧
      refusal'.position = refusal.position ∧ refusal'.picture = refusal.picture

section Reading
variable {read : Int → Outcome α} {readAt : Nat → Except Fault α} {nesting : α → Nat} {source : Text}
variable (hread : ∀ limit, (read limit).result =
  (readAt (levelsFor ceiling limit)).mapError fun fault => .refused ⟨source,ceiling,limit,fault⟩)
variable (hcut : ∀ ⦃levels levels'⦄, levels ≤ levels' →
  Cut (levels < nesting ·) (readAt levels) (readAt levels'))
variable (hn : ∀ levels a, readAt levels = .ok a → nesting a ≤ levels)
include hread hcut hn

/-- The levels that may be opened are cut at the built-in ceiling, which what is read under
the larger limit keeps as well. -/
theorem ok_iff_of_cut {d D : Nat} (h : d ≤ D) (a : α) :
    (read d).result = .ok a ↔ (read D).result = .ok a ∧ nesting a ≤ d := by
  rw [hread,hread,mapError_eq_ok,mapError_eq_ok,
    (hcut (levelsFor_le h)).ok_iff fun a ha => Nat.not_lt.mpr (hn _ a ha),Nat.not_lt]
  refine and_congr_right fun ha => ?_
  have hD := hn _ a ha
  rw [levelsFor_natCast] at hD ⊢
  omega

theorem limitFilters_of_cut : LimitFilters read nesting where
  ok_iff d D h a := ok_iff_of_cut hread hcut hn (Nat.le_of_lt h) a
  refused d D h refusal hr hdeep := by
    rw [hread] at hr
    obtain ⟨fault,hf,he⟩ := mapError_eq_error.mp hr
    obtain rfl := Failure.refused.inj he
    have hne : fault.problem ≠ .tooDeep := by
      intro hp
      rw [Refusal.isTooDeep_iff.mpr hp] at hdeep
      cases hdeep
    have hD := (hcut (levelsFor_le h)).error_again hf hne
    have hmessage := Problem.message_eq hne ceiling D d
    refine ⟨⟨source,ceiling,D,fault⟩,?_,hdeep,hmessage,rfl,?_⟩
    · rw [hread,hD]
      rfl
    · simp only [Refusal.picture,Refusal.message,hmessage]

end Reading

theorem Template.read_result (ceiling : Nat) (limit : Int) (source : Text) :
    (Template.read ceiling limit source).result =
      (readBlocks (levelsFor ceiling limit) source).mapError
        fun fault => .refused ⟨source,ceiling,limit,fault⟩ := by
  unfold Template.read
  cases readBlocks (levelsFor ceiling limit) source <;> rfl

theorem Template.readCondition_result (ceiling : Nat) (limit : Int) (source : Text) :
    (Template.readCondition ceiling limit source).result =
      (Stencil.readCondition (levelsFor ceiling limit) source).mapError
        fun fault => .refused ⟨source,ceiling,limit,fault⟩ := by
  unfold Template.readCondition Stencil.readCondition
  cases readLeadingCondition (levelsFor ceiling limit) source with
  | error fault => rfl
  | ok p => cases h : checkRest p.2 <;> simp [bind,Except.bind,h,Except.mapError,pure,Except.pure]

/-- A depth limit only filters: templates and conditions are read under it as under any larger
limit if they open no more levels, and refused alike under all larger limits if anything but
their depth is wrong. -/
theorem limit_only_filters (ceiling : Nat) (source : Text) :
    LimitFilters (Template.read ceiling · source) blocksNesting ∧
      LimitFilters (Template.readCondition ceiling · source) Condition.nesting := by
  constructor
  · exact limitFilters_of_cut (fun limit => Template.read_result ceiling limit source)
      (fun _ _ h => cut_readBlocks h source) (fun _ _ h => (shape_of_readBlocks h).2)
  · exact limitFilters_of_cut (fun limit => Template.readCondition_result ceiling limit source)
      (fun _ _ h => cut_readCondition h source) (fun _ _ h => (shape_of_readCondition h).2)

theorem limit_only_filters_of_index :
    (∀ d : Nat, (Template.read 1000 d "\x7b\x7bif x\x7d\x7d\x7b\x7b:a[b]\x7d\x7d\x7b\x7b/if\x7d\x7d".toList).result =
        .ok [.branch (.holds (.mk (.variable ['x'] []) []))
          [.print (.mk (.variable ['a'] [.index (.mk (.variable ['b'] []) [])]) [])]] ↔ 2 ≤ d) ∧
    ∀ D : Nat, 1 ≤ D → ∃ refusal, (Template.readCondition 1000 D "x eq -".toList).result =
      .error (.refused refusal) ∧ refusal.position = ⟨1,6⟩ := by
  constructor
  · have hread : (Template.read 1000 (2 : Nat) "\x7b\x7bif x\x7d\x7d\x7b\x7b:a[b]\x7d\x7d\x7b\x7b/if\x7d\x7d".toList).result =
        .ok [.branch (.holds (.mk (.variable ['x'] []) []))
          [.print (.mk (.variable ['a'] [.index (.mk (.variable ['b'] []) [])]) [])]] := by cbv
    intro d
    rcases Nat.lt_trichotomy d 2 with h | rfl | h
    · rw [(limit_only_filters _ _).1.ok_iff d 2 h]
      exact and_iff_right hread
    · exact iff_of_true hread (Nat.le_refl 2)
    · exact iff_of_true (((limit_only_filters _ _).1.ok_iff 2 d h _).mp hread).1 (Nat.le_of_lt h)
  · have hread : (Template.readCondition 1000 (1 : Nat) "x eq -".toList).result =
        .error (.refused ⟨"x eq -".toList,1000,1,⟨.wrongArgument '-',5,1⟩⟩) := by cbv
    intro D hD
    obtain ⟨refusal,hr,_,_,hposition,_⟩ := (limit_only_filters _ _).2.refused 1 D hD _ hread rfl
    exact ⟨refusal,hr,hposition.trans (by decide)⟩

end Stencil

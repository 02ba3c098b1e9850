import Stencil.Proofs.Reading.Block
import Stencil.Proofs.Tree.Shape

/-! # Reading under a lower ceiling

With fewer levels left a reading does the same as with more, or it stops at the ceiling.
It stops only where the other one reports a fault or reads something that opens more
levels than are left. `Cut` says so for one result and `Filtered` for a reading; both
pass through the productions from the inside out.
-/
namespace Stencil.Grammar

def Gives (deep : α → Prop) (r : Except Fault α) : Prop := ∀ a, r = .ok a → deep a

theorem gives_pure {deep : α → Prop} {a : α} (h : deep a) : Gives deep (pure a) := by
  rintro _ ⟨⟩
  exact h

theorem gives_bind {deep : β → Prop} {r : Except Fault α} {f : α → Except Fault β}
    (h : ∀ a, Gives deep (f a)) : Gives deep (r >>= f) := by
  intro b hb
  obtain ⟨a,_,hf⟩ := bind_eq_ok.mp hb
  exact h a b hf

/-- A result under a lower ceiling beside the one under a higher ceiling: the same, or too
deep where the other is a fault or `deep`. -/
inductive Cut (deep : α → Prop) : Except Fault α → Except Fault α → Prop where
  | same (r : Except Fault α) : Cut deep r r
  | stopped {fault : Fault} {r : Except Fault α} (hf : fault.problem = .tooDeep)
      (hr : Gives deep r) : Cut deep (.error fault) r

namespace Cut
variable {deep : α → Prop} {deep' : β → Prop} {r r' : Except Fault α}

theorem mono {shallow : α → Prop} (h : Cut shallow r r') (hd : ∀ a, shallow a → deep a) :
    Cut deep r r' := by
  cases h with
  | same => exact .same _
  | stopped hf hr => exact .stopped hf fun a ha => hd a (hr a ha)

theorem bind {f f' : α → Except Fault β} (h : Cut deep r r') (hf : ∀ a, Cut deep' (f a) (f' a))
    (hd : ∀ a, deep a → Gives deep' (f' a)) : Cut deep' (r >>= f) (r' >>= f') := by
  cases h with
  | same =>
    cases r with
    | error fault => exact .same _
    | ok a => exact hf a
  | stopped hfault hr =>
    refine .stopped hfault fun b hb => ?_
    obtain ⟨a,ha,hfa⟩ := bind_eq_ok.mp hb
    exact hd a (hr a ha) b hfa

/-- What comes first may be cut, what comes after it is the same under both ceilings. -/
theorem bind_same {f : α → Except Fault β} (h : Cut deep r r')
    (hd : ∀ a, deep a → Gives deep' (f a)) : Cut deep' (r >>= f) (r' >>= f) :=
  h.bind (fun a => .same (f a)) hd

theorem same_bind (r : Except Fault α) {f f' : α → Except Fault β}
    (hf : ∀ a, Cut deep' (f a) (f' a)) : Cut deep' (r >>= f) (r >>= f') := by
  cases r with
  | error fault => exact .same _
  | ok a => exact hf a

theorem ite {p : Prop} [Decidable p] {s s' : Except Fault α} (h : Cut deep r r')
    (hs : Cut deep s s') : Cut deep (if p then r else s) (if p then r' else s') := by
  by_cases hp : p
  · rwa [if_pos hp,if_pos hp]
  · rwa [if_neg hp,if_neg hp]

end Cut

/-- `low` reads what `high` reads, except for things of a size above `levels`. -/
def Filtered (levels : Nat) (size : α → Nat) (low high : Reading α) : Prop :=
  ∀ c, Cut (fun p => levels < size p.1) (low c) (high c)

theorem filtered_same {size : α → Nat} {levels : Nat} (reading : Reading α) :
    Filtered levels size reading reading := by
  intro c
  exact .same _

theorem filtered_tooDeep {size : α → Nat} (hs : ∀ a, 0 < size a) (high : Reading α) :
    Filtered 0 size tooDeep high := by
  intro c
  exact .stopped rfl fun p _ => hs p.1

theorem Filtered.succ {size : α → Nat} {levels : Nat} {low high : Reading α}
    (h : Filtered levels size low high) : Filtered (levels+1) (size · + 1) low high := by
  intro c
  exact (h c).mono fun p hp => Nat.succ_lt_succ hp

/-- A list is too deep as soon as one thing on it is. -/
theorem filtered_many {size : α → Nat} (sizes : List α → Nat) {levels : Nat} {low high : Reading α}
    (test : Cursor → Bool) (hcons : ∀ x xs, sizes (x :: xs) = max (size x) (sizes xs))
    (h : Filtered levels size low high) : Filtered levels sizes (many test low) (many test high) := by
  have hwithin : ∀ bound, Filtered levels sizes (manyWithin test low bound) (manyWithin test high bound) := by
    intro bound
    induction bound with
    | nil => exact filtered_same _
    | cons b bound ih =>
      intro c
      -- where the item is not cut it ends in one place for both, and the rounds go on from there
      refine Cut.ite ((h c).bind (fun p => (ih p.2).bind_same fun q hq => ?_) fun p hp => ?_) (.same _)
      · apply gives_pure
        rw [hcons]
        exact Nat.lt_of_lt_of_le hq (Nat.le_max_right _ _)
      · refine gives_bind fun q => gives_pure ?_
        rw [hcons]
        exact Nat.lt_of_lt_of_le hp (Nat.le_max_left _ _)
  intro c
  exact hwithin c.rest c

section Arguments
variable {levels : Nat} {low high : Reading Arg}

theorem filtered_step (h : Filtered levels (Arg.nesting · + 1) low high) :
    Filtered levels Step.nesting (step low) (step high) := by
  intro c
  refine Cut.ite (.same _) ((h _).bind_same fun p hp => ?_)
  exact gives_bind fun _ => gives_pure hp

theorem filtered_operand (h : Filtered levels (Arg.nesting · + 1) low high) :
    Filtered levels Operand.nesting (operand low) (operand high) := by
  intro c
  refine Cut.ite (.same _) (Cut.ite (Cut.same_bind _ fun p => ?_) (.same _))
  have hsteps := filtered_many stepsNesting atStep (fun _ _ => rfl) (filtered_step h)
  exact (hsteps p.2).bind_same fun q hq => gives_pure hq

theorem filtered_param (h : Filtered levels (Arg.nesting · + 1) low high) :
    Filtered levels Param.nesting (param low) (param high) := by
  intro c
  refine Cut.same_bind _ fun p => Cut.ite ?_ (.same _)
  exact (h _).bind_same fun q hq => gives_pure hq

theorem filtered_spacedParam (h : Filtered levels (Arg.nesting · + 1) low high) :
    Filtered levels Param.nesting (spacedParam low) (spacedParam high) := by
  intro c
  exact (filtered_param h c).bind_same fun p hp => gives_pure hp

theorem filtered_call (h : Filtered levels (Arg.nesting · + 1) low high) :
    Filtered levels Call.nesting (call low) (call high) := by
  intro c
  refine Cut.same_bind _ fun p => Cut.same_bind _ fun c₁ => ?_
  have hparams := filtered_many paramsNesting atName (fun _ _ => rfl) (filtered_spacedParam h)
  exact (hparams _).bind_same fun q hq => gives_bind fun _ => gives_pure hq

theorem filtered_pipedCall (h : Filtered levels (Arg.nesting · + 1) low high) :
    Filtered levels Call.nesting (pipedCall low) (pipedCall high) := by
  intro c
  exact (filtered_call h _).bind_same fun p hp => gives_pure hp

theorem filtered_argumentWith (h : Filtered levels (Arg.nesting · + 1) low high) :
    Filtered levels Arg.nesting (argumentWith low) (argumentWith high) := by
  have hcalls := filtered_many callsNesting atArrow (fun _ _ => rfl) (filtered_pipedCall h)
  intro c
  refine (filtered_operand h _).bind (fun p => (hcalls _).bind_same fun q hq => ?_) fun p hp => ?_
  · exact gives_pure (Nat.lt_of_lt_of_le hq (Nat.le_max_right _ _))
  · exact gives_bind fun _ => gives_pure (Nat.lt_of_lt_of_le hp (Nat.le_max_left _ _))

theorem filtered_arrayItem (h : Filtered levels (Arg.nesting · + 1) low high) :
    Filtered levels (Arg.nesting · + 1) (arrayItem low) (arrayItem high) := by
  intro c
  exact (h _).bind_same fun p hp => gives_pure hp

theorem filtered_arrayWith (h : Filtered levels (Arg.nesting · + 1) low high) :
    Filtered levels itemsNesting (arrayWith low) (arrayWith high) := by
  have hnext : Filtered levels (Arg.nesting · + 1) (nextItem low) (nextItem high) := by
    intro c
    exact filtered_arrayItem h _
  have hitems := filtered_many itemsNesting atComma (fun _ _ => rfl) hnext
  intro c
  refine Cut.same_bind _ fun c₁ => (filtered_arrayItem h c₁).bind (fun p => ?_) fun p hp => ?_
  · refine (hitems p.2).bind_same fun q hq => gives_bind fun _ => gives_pure ?_
    exact Nat.lt_of_lt_of_le hq (Nat.le_max_right _ _)
  · refine gives_bind fun _ => gives_bind fun _ => gives_pure ?_
    exact Nat.lt_of_lt_of_le hp (Nat.le_max_left _ _)

end Arguments

section Levels
variable {levels levels' : Nat} (hle : levels ≤ levels')
include hle

theorem filtered_nestedArgument :
    Filtered levels (Arg.nesting · + 1) (nestedArgument levels) (nestedArgument levels') := by
  induction levels generalizing levels' with
  | zero => exact filtered_tooDeep (fun _ => Nat.succ_pos _) _
  | succ levels ih =>
    cases levels' with
    | zero => exact absurd hle (Nat.not_succ_le_zero levels)
    | succ levels' =>
      rw [nestedArgument,nestedArgument,argument_eq,argument_eq]
      exact (filtered_argumentWith (ih (Nat.le_of_succ_le_succ hle))).succ

theorem filtered_argument : Filtered levels Arg.nesting (argument levels) (argument levels') := by
  rw [argument_eq,argument_eq]
  exact filtered_argumentWith (filtered_nestedArgument hle)

theorem filtered_array : Filtered levels itemsNesting (array levels) (array levels') :=
  filtered_arrayWith (filtered_nestedArgument hle)

theorem filtered_leafTail (left : Arg) (negated : Bool) :
    Filtered (levels+1) Condition.nesting (leafTail (argument levels) (array levels) left negated)
      (leafTail (argument levels') (array levels') left negated) := by
  intro c
  unfold leafTail
  cases comparison? c with
  | some p =>
    refine (filtered_argument hle _).bind_same fun q hq => gives_pure ?_
    exact Nat.succ_lt_succ (Nat.lt_of_lt_of_le hq (Nat.le_max_right _ _))
  | none =>
    cases keyword? "in".toList c with
    | some c₁ =>
      refine (filtered_array hle _).bind_same fun q hq => gives_pure ?_
      exact Nat.succ_lt_succ (Nat.lt_of_lt_of_le hq (Nat.le_max_right _ _))
    | none => exact .same _

omit hle in
theorem nesting_lt_of_leafTail {argument : Reading Arg} {array : Reading (List Arg)} {left : Arg}
    {negated : Bool} {c d : Cursor} {x : Condition}
    (h : leafTail argument array left negated c = .ok (x,d)) : left.nesting < x.nesting := by
  rcases leafTail_eq_ok.mp h with ⟨_,_,right,_,_,rfl⟩ | ⟨_,_,items,_,_,rfl⟩ | ⟨_,_,_,rfl,_⟩
  · exact Nat.lt_succ_of_le (Nat.le_max_left _ _)
  · exact Nat.lt_succ_of_le (Nat.le_max_left _ _)
  · exact Nat.lt_succ_self _

theorem filtered_leafWith :
    Filtered (levels+1) Condition.nesting (leafWith (argument levels) (array levels))
      (leafWith (argument levels') (array levels')) := by
  intro c
  rw [leafWith_eq,leafWith_eq]
  refine (filtered_argument hle c).bind (fun p => filtered_leafTail hle p.1 _ _) ?_
  rintro p hp ⟨x,d⟩ hx
  exact Nat.lt_of_le_of_lt hp (nesting_lt_of_leafTail hx)

theorem filtered_operandWith {low high : Reading Condition}
    (h : Filtered levels Condition.nesting low high) :
    Filtered (levels+1) Condition.nesting (operandWith low (argument levels) (array levels))
      (operandWith high (argument levels') (array levels')) := by
  intro c
  refine Cut.ite ((h _).bind_same fun p hp => ?_) (Cut.ite (filtered_leafWith hle c) (.same _))
  exact gives_bind fun _ => gives_pure (Nat.succ_lt_succ hp)

omit hle in
theorem filtered_conditionTail {low high : Reading Condition}
    (h : Filtered levels Condition.nesting low high) (left : Condition) :
    Filtered (levels+1) Condition.nesting (conditionTail low left) (conditionTail high left) := by
  intro c
  unfold conditionTail
  cases connective? c with
  | some p =>
    refine (h _).bind_same fun q hq => gives_pure ?_
    exact Nat.lt_of_lt_of_le (Nat.succ_lt_succ hq) (Nat.le_max_right _ _)
  | none => exact .same _

omit hle in
theorem nesting_le_of_conditionTail {inner : Reading Condition} {left x : Condition} {c d : Cursor}
    (h : conditionTail inner left c = .ok (x,d)) : left.nesting ≤ x.nesting := by
  rcases conditionTail_eq_ok.mp h with ⟨_,_,right,_,_,rfl⟩ | ⟨_,rfl,_⟩
  · exact Nat.le_max_left _ _
  · exact Nat.le_refl _

theorem filtered_condition : Filtered levels Condition.nesting (condition levels) (condition levels') := by
  induction levels generalizing levels' with
  | zero => exact filtered_tooDeep Condition.nesting_pos _
  | succ levels ih =>
    cases levels' with
    | zero => exact absurd hle (Nat.not_succ_le_zero levels)
    | succ levels' =>
      have hle' := Nat.le_of_succ_le_succ hle
      intro c
      rw [condition,condition,conditionWith_eq,conditionWith_eq]
      refine (filtered_operandWith hle' (ih hle') _).bind (fun p => ?_) ?_
      · exact filtered_conditionTail (ih hle') p.1 _
      · rintro p hp ⟨x,d⟩ hx
        exact Nat.lt_of_lt_of_le hp (nesting_le_of_conditionTail hx)

variable {low high : Reading (List Block)}

theorem filtered_assignment (directive : Text) :
    Filtered levels (fun p => p.2.nesting) (assignment (argument levels) directive)
      (assignment (argument levels') directive) := by
  intro c
  refine Cut.same_bind _ fun c₁ => Cut.same_bind _ fun p => Cut.same_bind _ fun c₂ => ?_
  exact (filtered_argument hle _).bind_same fun q hq => gives_bind fun _ => gives_pure hq

theorem filtered_setBlock :
    Filtered levels Block.nesting (setBlock (argument levels)) (setBlock (argument levels')) := by
  intro c
  exact (filtered_assignment hle _ c).bind_same fun p hp => gives_pure hp

theorem filtered_confBlock :
    Filtered levels Block.nesting (confBlock (argument levels)) (confBlock (argument levels')) := by
  intro c
  exact (filtered_assignment hle _ c).bind_same fun p hp => gives_pure hp

theorem filtered_printBlock :
    Filtered levels Block.nesting (printBlock (argument levels)) (printBlock (argument levels')) := by
  intro c
  refine Cut.same_bind _ fun c₁ => (filtered_argument hle c₁).bind_same fun q hq => ?_
  exact gives_bind fun _ => gives_pure hq

theorem filtered_loopSource :
    Filtered levels LoopSource.nesting (loopSource (argument levels) (array levels))
      (loopSource (argument levels') (array levels')) := by
  intro c
  refine Cut.ite ?_ (Cut.ite ?_ (.same _))
  · refine (filtered_argument hle _).bind (fun p => Cut.same_bind _ fun c₁ => ?_) fun p hp => ?_
    · refine (filtered_argument hle c₁).bind_same fun q hq => gives_pure ?_
      exact Nat.lt_of_lt_of_le hq (Nat.le_max_right _ _)
    · refine gives_bind fun _ => gives_bind fun _ => gives_pure ?_
      exact Nat.lt_of_lt_of_le hp (Nat.le_max_left _ _)
  · exact (filtered_array hle _).bind_same fun q hq => gives_pure hq

theorem filtered_branchBlock (h : Filtered levels (blocksNesting · + 1) low high) :
    Filtered levels Block.nesting (branchBlock (condition levels) low)
      (branchBlock (condition levels') high) := by
  intro c
  refine Cut.same_bind _ fun c₁ => (filtered_condition hle c₁).bind (fun p => ?_) fun p hp => ?_
  · refine Cut.same_bind _ fun c₂ => (h c₂).bind_same fun q hq => gives_bind fun _ => gives_pure ?_
    exact Nat.lt_of_lt_of_le hq (Nat.le_max_right _ _)
  · refine gives_bind fun _ => gives_bind fun _ => gives_bind fun _ => gives_pure ?_
    exact Nat.lt_of_lt_of_le hp (Nat.le_max_left _ _)

theorem filtered_loopBlock (h : Filtered levels (blocksNesting · + 1) low high) :
    Filtered levels Block.nesting (loopBlock (argument levels) (array levels) low)
      (loopBlock (argument levels') (array levels') high) := by
  intro c
  refine Cut.same_bind _ fun c₁ => Cut.same_bind _ fun target => ?_
  refine (filtered_loopSource hle _).bind (fun p => ?_) fun p hp => ?_
  · refine Cut.same_bind _ fun c₂ => (h c₂).bind_same fun q hq => gives_bind fun _ => gives_pure ?_
    exact Nat.lt_of_lt_of_le hq (Nat.le_max_right _ _)
  · refine gives_bind fun _ => gives_bind fun _ => gives_bind fun _ => gives_pure ?_
    exact Nat.lt_of_lt_of_le hp (Nat.le_max_left _ _)

theorem filtered_directiveWith (h : Filtered levels (blocksNesting · + 1) low high) :
    Filtered levels Block.nesting (directiveWith levels low) (directiveWith levels' high) := by
  intro c
  exact Cut.ite (filtered_branchBlock hle h c) <| Cut.ite (filtered_loopBlock hle h c) <|
    Cut.ite (filtered_setBlock hle c) <| Cut.ite (.same _) <| Cut.ite (.same _) <|
    Cut.ite (filtered_printBlock hle c) <| Cut.ite (filtered_confBlock hle c) (.same _)

theorem filtered_rounds (h : Filtered levels (blocksNesting · + 1) low high) :
    Filtered levels blocksNesting (many atBlock (blockWith levels low))
      (many atBlock (blockWith levels' high)) := by
  have hround : Filtered levels Block.nesting (blockWith levels low) (blockWith levels' high) := by
    intro c
    exact Cut.ite (filtered_directiveWith hle h c) (.same _)
  exact filtered_many blocksNesting atBlock (fun _ _ => rfl) hround

theorem filtered_body : Filtered levels (blocksNesting · + 1) (body levels) (body levels') := by
  induction levels generalizing levels' with
  | zero => exact filtered_tooDeep (fun _ => Nat.succ_pos _) _
  | succ levels ih =>
    cases levels' with
    | zero => exact absurd hle (Nat.not_succ_le_zero levels)
    | succ levels' =>
      have hle' := Nat.le_of_succ_le_succ hle
      rw [body,body,blocks_eq,blocks_eq]
      exact (filtered_rounds hle' (ih hle')).succ

theorem filtered_blocks : Filtered levels blocksNesting (blocks levels) (blocks levels') := by
  rw [blocks_eq,blocks_eq]
  exact filtered_rounds hle (filtered_body hle)

end Levels

end Stencil.Grammar

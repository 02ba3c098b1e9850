import Mathlib.Data.Int.Range
import Stencil.Proofs.Evaluation.Iteration
import Stencil.Proofs.Number.Whole

/-! # Loops over a range

A range whose bounds are whole numbers in decimal stands for the list of the decimal texts from
the first bound up to below the last one. Both bounds are read once, before the first round, so
no round has a part in how many there are.
-/
namespace Stencil

theorem range_of_not_lt {a b : Int} (h : ¬a < b) : Int.range a b = [] := by
  have hsteps : (b - a).toNat = 0 := by omega
  rw [Int.range,hsteps]
  rfl

theorem range_of_lt {a b : Int} (h : a < b) : Int.range a b = a :: Int.range (a + 1) b := by
  have hsteps : (b - a).toNat = (b - (a + 1)).toNat + 1 := by omega
  rw [Int.range,Int.range,hsteps,List.range_succ_eq_map,List.map_cons,List.map_map]
  refine congrArg₂ List.cons (Int.add_zero a) (List.map_congr_left fun k _ => ?_)
  change a + (k + 1 : Nat) = a + 1 + k
  omega

/-- What stands beside the numbers of a range, position by position. -/
theorem forall₂_range {α : Type} {R : Int → α → Prop} {a b : Int} {parts : List α} :
    List.Forall₂ R (Int.range a b) parts ↔
      parts.length = (b - a).toNat ∧ ∀ (k : Nat) part, parts[k]? = some part → R (a + k) part := by
  have hlength : (Int.range a b).length = (b - a).toNat := by simp [Int.range]
  have hget (k : Nat) (h : k < (Int.range a b).length) : (Int.range a b).get ⟨k,h⟩ = a + k := by
    simp [Int.range]
  constructor
  · intro h
    have hsame : parts.length = (b - a).toNat := h.length_eq.symm.trans hlength
    refine ⟨hsame,fun k part hpart => ?_⟩
    obtain ⟨hk,rfl⟩ := List.getElem?_eq_some_iff.mp hpart
    rw [← hget k (by omega)]
    exact h.get _ hk
  · rintro ⟨hsame,h⟩
    refine List.forall₂_of_length_eq_of_get (hlength.trans hsame.symm) fun k hk hpart => ?_
    rw [hget k hk]
    exact h k _ (List.getElem?_eq_getElem hpart)

section Literals
variable (env : Env) (t : Text)

@[simp] theorem eval_literal : (Arg.ofText t).eval env = pure (.text t) := rfl

theorem evalText_literal : (Arg.ofText t).evalText env = pure t := rfl

theorem evalArgs_literals {α : Type} (f : α → Text) (xs : List α) :
    evalArgs env (xs.map fun x => .ofText (f x)) = pure (xs.map fun x => .text (f x)) := by
  induction xs with
  | nil => rfl
  | cons x xs ih => simp [evalArgs,ih]

end Literals

/-- A range whose bounds are given in decimal. -/
def LoopSource.between (a b : Int) : LoopSource :=
  .range (.ofText (intText a)) (.ofText (intText b))

/-- The numbers from `a` up to below `b` in decimal, one by one. -/
def LoopSource.decimals (a b : Int) : LoopSource :=
  .items ((Int.range a b).map fun i => .ofText (intText i))

namespace Rendering

theorem forRange_eq_forEach (name : Text) (body : Rendering) (a b : Int) :
    forRange name body (.whole b) (b - a).toNat (.whole a) =
      forEach name body ((Int.range a b).map fun i => .text (intText i)) := by
  -- between whole numbers, as many rounds are allowed as there are
  generalize hsteps : (b - a).toNat = rounds
  induction rounds generalizing a with
  | zero =>
    rw [range_of_not_lt (by omega)]
    rfl
  | succ rounds ih =>
    have hlt : a < b := by omega
    have hbelow : (Number.whole a).below (.whole b) = true := decide_eq_true hlt
    rw [range_of_lt hlt,List.map_cons,forEach,forRange,if_pos hbelow,← ih (a + 1) (by omega)]
    rfl

theorem between_run {a b : Int} (ha : a.natAbs ≤ 2 ^ 53) (hb : b.natAbs ≤ 2 ^ 53)
    (methods : Registry) (name : Text) (body : Rendering) :
    (LoopSource.between a b).run methods name body =
      (LoopSource.decimals a b).run methods name body := by
  funext s
  simp only [LoopSource.between,LoopSource.decimals,LoopSource.run,evalText_literal,evalArgs_literals,
    pure_bind,Number.ofText?_intText ha,Number.ofText?_intText hb,Number.stepsBetween,
    forRange_eq_forEach]

theorem literal_round_ok {names : List Text} {body : Rendering} (h : Keeps names body)
    {methods : Registry} {name t : Text} {s : Scopes} {part : List Fragment} :
    ((LoopSource.items [.ofText t]).run methods name body s).result = .ok (s,part) ↔
      ∃ u, (body (s.push [(.text name,.text t)])).result = .ok (u,part) := by
  rw [items_singleton_ok h]
  constructor
  · rintro ⟨-,_,u,⟨⟩,hu⟩
    exact ⟨u,hu⟩
  · rintro ⟨u,hu⟩
    exact ⟨rfl,.text t,u,rfl,hu⟩

end Rendering

/-- A loop over a range between whole numbers in decimal, of at most `2 ^ 53` in absolute value,
runs as the loop over the list of their decimal texts does, whether it comes to an end or not.
Where it does, it has run once for each number from the first bound up to below the last one, in
that order, and each round has started from the scopes before the loop, in a frame that holds
the number and nothing else. -/
theorem loop_between_eq_decimals {a b : Int} (ha : a.natAbs ≤ 2 ^ 53) (hb : b.natAbs ≤ 2 ^ 53)
    (methods : Registry) (name : Text) (body : List Block) (s : Scopes) :
    (Block.loop name (.between a b) body).eval methods s =
      (Block.loop name (.decimals a b) body).eval methods s ∧
    ∀ t fragments,
      ((Block.loop name (.between a b) body).eval methods s).result = .ok (t,fragments) ↔
      t = s ∧ ∃ parts : List (List Fragment), parts.length = (b - a).toNat ∧
        (∀ (k : Nat) part, parts[k]? = some part → ∃ u,
          (evalBlocks methods body (s.push [(.text name,.text (intText (a + k)))])).result =
            .ok (u,part)) ∧
        fragments = parts.flatten := by
  have hbody : Rendering.Keeps (setNames body) (evalBlocks methods body) :=
    keeps_evalBlocks methods body (List.Subset.refl _)
  have hrun : (Block.loop name (.between a b) body).eval methods =
      (Block.loop name (.decimals a b) body).eval methods :=
    Rendering.between_run ha hb methods name _
  refine ⟨congrFun hrun s,fun t fragments => ?_⟩
  rw [hrun]
  refine (Rendering.items_ok_iff_rounds hbody).trans ?_
  simp only [List.forall₂_map_left_iff,Rendering.literal_round_ok hbody,forall₂_range,and_assoc]

/-- Bounds that a double just holds, and a body that sets the name of the loop. -/
theorem loop_between_eq_decimals_of_least :
    (-2 ^ 53 : Int).natAbs ≤ 2 ^ 53 ∧ (-2 ^ 53 + 2 : Int).natAbs ≤ 2 ^ 53 ∧
      ((Block.loop ['i'] (.between (-2 ^ 53) (-2 ^ 53 + 2))
        [.print (.mk (.variable ['i'] []) []),.set ['i'] (.ofText ['9'])]).eval (fun _ _ => none)
        (.start [])).result =
      .ok (.start [],[.value "-9007199254740992".toList,.value "-9007199254740991".toList]) := by
  refine ⟨by decide,by decide,?_⟩
  rw [(loop_between_eq_decimals (by decide) (by decide) _ _ _ _).1]
  rfl

end Stencil

import Mathlib.Data.List.Basic
import Stencil.Proofs.Except
import Stencil.Proofs.Evaluation.Scoping
import Stencil.Proofs.Text.Search

/-! # Wildcard patterns

A text is like a pattern just if it is the pattern with some text in the place of every
wildcard. Each piece of the pattern is sought at its leftmost place only, which loses nothing:
from any other place less text is left, and a run in front of the next piece takes the rest.
-/
namespace Stencil
namespace Text

/-- `pattern` is `first` and the pieces `rest`, which hold no wildcard, with one between
neighbours. -/
def CutsInto (pattern first : Text) (rest : List Text) : Prop :=
  pattern = ['%'].intercalate (first :: rest) ∧ ∀ piece ∈ first :: rest, '%' ∉ piece

/-- `t` is the pieces in their order with a text, which may be empty, in front of each. -/
def Spaced (pieces : List Text) (t : Text) : Prop :=
  ∃ runs : List Text, runs.length = pieces.length ∧ t = (List.zipWith (· ++ ·) runs pieces).flatten

/-- `t` is `pattern` with a text in the place of every wildcard. -/
def Fills (pattern t : Text) : Prop :=
  ∃ first rest runs, CutsInto pattern first rest ∧ runs.length = rest.length ∧
    t = first ++ (List.zipWith (· ++ ·) runs rest).flatten

theorem exists_cutsInto (pattern : Text) : ∃ first rest, CutsInto pattern first rest := by
  obtain ⟨pieces,hne,hpattern,hpieces⟩ := exists_pieces '%' pattern
  obtain ⟨first,rest,rfl⟩ := List.exists_cons_of_ne_nil hne
  exact ⟨first,rest,hpattern,hpieces⟩

/-- The pieces are what is left between the wildcards. -/
theorem CutsInto.splitOn {pattern first : Text} {rest : List Text} (h : CutsInto pattern first rest) :
    pattern.splitOn '%' = first :: rest := by
  rw [h.1]
  exact List.splitOn_intercalate '%' h.2 (List.cons_ne_nil first rest)

theorem spaced_nil {t : Text} : Spaced [] t ↔ t = [] := by
  constructor
  · rintro ⟨runs,_,rfl⟩
    cases runs <;> rfl
  · rintro rfl
    exact ⟨[],rfl,rfl⟩

theorem spaced_cons {piece : Text} {pieces : List Text} {t : Text} :
    Spaced (piece :: pieces) t ↔ ∃ run u, t = run ++ (piece ++ u) ∧ Spaced pieces u := by
  constructor
  · rintro ⟨_ | ⟨run,runs⟩,hlength,rfl⟩
    · cases hlength
    · refine ⟨run,_,?_,runs,Nat.succ.inj hlength,rfl⟩
      rw [List.zipWith_cons_cons,List.flatten_cons,List.append_assoc]
  · rintro ⟨run,u,rfl,runs,hlength,rfl⟩
    refine ⟨run :: runs,congrArg Nat.succ hlength,?_⟩
    rw [List.zipWith_cons_cons,List.flatten_cons,List.append_assoc]

/-- More text in front goes into the first run. -/
theorem Spaced.append {pieces : List Text} {t : Text} (h : Spaced pieces t) (hne : pieces ≠ [])
    (more : Text) : Spaced pieces (more ++ t) := by
  obtain ⟨piece,rest,rfl⟩ := List.exists_cons_of_ne_nil hne
  obtain ⟨run,u,rfl,hu⟩ := spaced_cons.mp h
  exact spaced_cons.mpr ⟨more ++ run,u,(List.append_assoc more run _).symm,hu⟩

/-- The leftmost place of a piece leaves the most text for the pieces behind it. -/
theorem spaced_of_breakAt? {piece t before after : Text} {pieces : List Text} (hne : pieces ≠ [])
    (h : breakAt? piece t = some (before,after)) : Spaced (piece :: pieces) t ↔ Spaced pieces after := by
  have ht := eq_append_of_breakAt? h
  constructor
  · intro hs
    obtain ⟨run,u,he,hu⟩ := spaced_cons.mp hs
    obtain ⟨before',after',hcut,hle⟩ := exists_breakAt? he
    obtain ⟨rfl,rfl⟩ := Prod.mk.inj (Option.some.inj (h.symm.trans hcut))
    -- what follows the piece at its other place is the end of what follows it here
    have hsuffix : u <:+ after := by
      have hu : u <:+ t := ⟨run ++ piece,by rw [he,List.append_assoc]⟩
      have hafter : after <:+ t := ⟨before ++ piece,by rw [ht,List.append_assoc]⟩
      have hlength := congrArg List.length (ht.symm.trans he)
      simp only [List.length_append] at hlength
      exact List.suffix_of_suffix_length_le hu hafter (by omega)
    obtain ⟨more,rfl⟩ := hsuffix
    exact hu.append hne more
  · intro hs
    exact spaced_cons.mpr ⟨before,after,ht,hs⟩

theorem endsWithParts_iff {pieces : List Text} {t : Text} :
    endsWithParts pieces t = true ↔ Spaced pieces t := by
  fun_induction endsWithParts pieces t with
  | case1 t => rw [spaced_nil,List.isEmpty_iff]
  | case2 t last =>
    rw [List.isSuffixOf_iff_suffix,spaced_cons]
    constructor
    · rintro ⟨run,rfl⟩
      exact ⟨run,[],by rw [List.append_nil],spaced_nil.mpr rfl⟩
    · rintro ⟨run,u,rfl,hu⟩
      rw [spaced_nil.mp hu,List.append_nil]
      exact ⟨run,rfl⟩
  | case3 t piece pieces hne before after hcut ih =>
    rw [ih,spaced_of_breakAt? hne hcut]
  | case4 t piece pieces hne hcut =>
    refine iff_of_false Bool.false_ne_true fun hs => ?_
    obtain ⟨run,u,he,_⟩ := spaced_cons.mp hs
    obtain ⟨before,after,hcut',_⟩ := exists_breakAt? he
    rw [hcut] at hcut'
    cases hcut'

theorem isLike_of_cutsInto {pattern first t : Text} {rest : List Text}
    (h : CutsInto pattern first rest) :
    isLike pattern t = true ↔ ∃ u, t = first ++ u ∧ Spaced rest u := by
  unfold isLike
  rw [h.splitOn]
  cases rest with
  | nil => simp [spaced_nil]
  | cons piece rest =>
    dsimp only
    constructor
    · intro hlike
      split at hlike
      · next u hu =>
        exact ⟨u,(List.isPrefixOf?_eq_some_iff_append_eq.mp hu).symm,endsWithParts_iff.mp hlike⟩
      · cases hlike
    · rintro ⟨u,rfl,hu⟩
      rw [List.isPrefixOf?_eq_some_iff_append_eq.mpr rfl]
      exact endsWithParts_iff.mpr hu

theorem isLike_iff {pattern t : Text} : isLike pattern t = true ↔ Fills pattern t := by
  constructor
  · intro hlike
    obtain ⟨first,rest,hcuts⟩ := exists_cutsInto pattern
    obtain ⟨u,rfl,runs,hlength,rfl⟩ := (isLike_of_cutsInto hcuts).mp hlike
    exact ⟨first,rest,runs,hcuts,hlength,rfl⟩
  · rintro ⟨first,rest,runs,hcuts,hlength,rfl⟩
    exact (isLike_of_cutsInto hcuts).mpr ⟨_,rfl,runs,hlength,rfl⟩

/-- Without a wildcard a pattern is filled by itself alone. -/
theorem fills_of_notMem {pattern t : Text} (h : '%' ∉ pattern) : Fills pattern t ↔ t = pattern := by
  have hcuts : CutsInto pattern pattern [] := ⟨(List.intercalate_singleton).symm,by simpa using h⟩
  rw [← isLike_iff,isLike_of_cutsInto hcuts]
  simp [spaced_nil]

end Text

/-- Where both sides have texts, a comparison by `like` has a truth value: whether the text on
the left is the pattern on the right with some text in the place of every wildcard, or the
contrary after `not`. A pattern without wildcards asks for the same text. -/
theorem eval_like {env : Env} {left right : Arg} {v w : Value} {t pattern : Text} (negated : Bool)
    (hv : (left.eval env).result = .ok v) (ht : v.display = .ok t)
    (hw : (right.eval env).result = .ok w) (hpattern : w.display = .ok pattern) :
    ∃ holds, ((Condition.compare .like negated left right).eval env).result = .ok holds ∧
      (holds = true ↔ if negated then ¬Text.Fills pattern t else Text.Fills pattern t) ∧
      ('%' ∉ pattern → (Text.Fills pattern t ↔ t = pattern)) := by
  refine ⟨pattern.isLike t != negated,?_,?_,Text.fills_of_notMem⟩
  · have hleft := (Arg.evalText_of_ok hv).trans (mapError_eq_ok.mpr ht)
    have hright := (Arg.evalText_of_ok hw).trans (mapError_eq_ok.mpr hpattern)
    rw [Condition.eval,Comparison.eval]
    refine Run.result_bind_eq_ok.mpr ⟨_,?_,rfl⟩
    exact Run.result_bind_eq_ok.mpr ⟨t,hleft,Run.result_bind_eq_ok.mpr ⟨pattern,hright,rfl⟩⟩
  · rw [← Text.isLike_iff]
    cases negated <;> simp

/-- The first `a` is not where the piece `ab` is found, and `ab` and `ba` must not share a letter. -/
theorem eval_like_of_overlap :
    ((Condition.compare .like false (.ofText "aab\n.*".toList) (.ofText "%ab%.*".toList)).eval
      ⟨.start [],.standard⟩).result = .ok true ∧
    ((Condition.compare .like true (.ofText "aba".toList) (.ofText "ab%ba".toList)).eval
      ⟨.start [],.standard⟩).result = .ok true := by
  have hvalue : ∀ t : Text, ((Arg.ofText t).eval ⟨.start [],.standard⟩).result = .ok (.text t) :=
    fun _ => rfl
  constructor
  · obtain ⟨holds,hresult,hholds,_⟩ :=
      eval_like false (hvalue "aab\n.*".toList) rfl (hvalue "%ab%.*".toList) rfl
    have hfills : Text.Fills "%ab%.*".toList "aab\n.*".toList :=
      ⟨[],["ab".toList,".*".toList],["a".toList,"\n".toList],⟨rfl,by decide⟩,rfl,rfl⟩
    rw [hresult,hholds.mpr hfills]
  · obtain ⟨holds,hresult,hholds,_⟩ :=
      eval_like true (hvalue "aba".toList) rfl (hvalue "ab%ba".toList) rfl
    have hfills : ¬Text.Fills "ab%ba".toList "aba".toList := fun h =>
      absurd (Text.isLike_iff.mpr h) (by decide +kernel)
    rw [hresult,hholds.mpr hfills]

end Stencil

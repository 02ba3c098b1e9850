import Mathlib
import Stencil.Proofs.Evaluation.Dependence
import Stencil.Proofs.Reading.Offsets
import Stencil.Proofs.Source.Line

/-! # Calls and the messages about them

Each call of a tree that was read has its name at its offset, and no two calls have one offset.
When a function is unknown, the message shows the line of such a call and points at its name.
-/
namespace Stencil
open Grammar

/-- The message tells the position of the name, shows its line and has carets under the name. -/
def PointsAt (source name : Text) (offset : Nat) (words message : Text) : Prop :=
  ∃ above before after below, Source.Line source offset above before (name ++ after) below ∧
    message = words ++ " at position ".toList ++
      Position.text ⟨above.count '\n' + 1,before.length + 1⟩ ++ ":\n\n".toList ++
      (before ++ (name ++ after)) ++ '\n' :: List.replicate before.length ' ' ++
      List.replicate name.length '^' ++ " - ".toList ++ words

theorem newline_notMem_of_isName {name : Text} (h : IsName name) : '\n' ∉ name := by
  cases name with
  | nil => exact List.not_mem_nil
  | cons c name =>
    obtain ⟨hc,hname⟩ := h
    intro hmem
    rcases List.mem_cons.mp hmem with rfl | hmem
    · exact absurd hc (by decide)
    · exact absurd (hname _ hmem) (by decide)

theorem pointsAt_picture {source name : Text} {offset : Nat} (hn : IsName name)
    (hp : name <+: source.drop offset) (words : Text) :
    offset ≤ source.length ∧
      PointsAt source name offset words (Source.picture source offset name.length words) := by
  have hne : 0 < name.length := by
    cases name with
    | nil => exact hn.elim
    | cons c name => exact Nat.succ_pos _
  have hle : offset ≤ source.length := by
    have hlen := hp.length_le
    rw [List.length_drop] at hlen
    omega
  obtain ⟨above,below,hline,hposition⟩ := Source.exists_line hle
  obtain ⟨r,hr⟩ := hp
  have hafter : Source.lineAfter source offset = name ++ r.takeWhile (· ≠ '\n') := by
    unfold Source.lineAfter
    rw [← hr,List.takeWhile_append_of_pos]
    intro x hx
    refine decide_eq_true ?_
    rintro rfl
    exact newline_notMem_of_isName hn hx
  rw [hafter] at hline
  refine ⟨hle,above,_,_,below,hline,?_⟩
  rw [Source.picture,Source.lineAt,hafter,hposition,Nat.max_eq_left hne]

def Reference.offset? : Reference → Option Nat
  | .variable _ => none
  | .method _ offset => some offset

def callOffsets (refs : List Reference) : List Nat := refs.filterMap Reference.offset?

/-- Each call has its name at its offset in `source`, and each an offset of its own. -/
structure CallsMarked (source : Text) (refs : List Reference) : Prop where
  spelled : ∀ name offset, .method name offset ∈ refs →
    (source.drop offset).take name.length = name
  increasing : (callOffsets refs).Pairwise (· < ·)

namespace Grammar.Placed
variable {source name : Text} {first offset last : Nat} {refs : List Reference}

theorem of_mem (h : Placed source first refs last) (hmem : .method name offset ∈ refs) :
    IsName name ∧ name <+: source.drop offset := by
  induction h with
  | nil => cases hmem
  | «variable» root _ ih =>
    rcases List.mem_cons.mp hmem with hmem | hmem
    · cases hmem
    · exact ih hmem
  | method _ hname hplace _ ih =>
    rcases List.mem_cons.mp hmem with hmem | hmem
    · cases hmem
      exact ⟨hname,hplace⟩
    · exact ih hmem

theorem le_of_mem_callOffsets (h : Placed source first refs last) (hmem : offset ∈ callOffsets refs) :
    first ≤ offset := by
  induction h with
  | nil => cases hmem
  | «variable» root _ ih => exact ih hmem
  | method hfirst _ _ _ ih =>
    rcases List.mem_cons.mp hmem with rfl | hmem
    · exact hfirst
    · have hle := ih hmem
      omega

theorem callsMarked (h : Placed source first refs last) : CallsMarked source refs where
  spelled name offset hmem := by
    obtain ⟨r,hr⟩ := (h.of_mem hmem).2
    rw [← hr,List.take_left]
  increasing := by
    induction h with
    | nil => exact List.Pairwise.nil
    | «variable» root _ ih => exact ih
    | method _ _ _ h ih => exact List.pairwise_cons.mpr ⟨fun _ hmem => h.le_of_mem_callOffsets hmem,ih⟩

end Grammar.Placed

/-- If it is a function that is unknown, it is one that is called, and the message points at the
name in a call of it. -/
def Stop.ShowsCall (source : Text) (refs : List Reference) (stop : Stop) : Prop :=
  ∀ name offset, stop.problem = .unknownFunction name offset →
    .method name offset ∈ refs ∧ PointsAt source name offset stop.shortMessage stop.message

theorem Grammar.Placed.showsCall {source : Text} {refs : List Reference} {first last : Nat}
    (h : Placed source first refs last) {p q : EvalProblem} (hp : p.Moved id refs q) {stop : Stop}
    (hs : Failure.ofEval (some source) p = .stopped stop) : stop.ShowsCall source refs := by
  rintro name offset hproblem
  cases p with
  | unknownFunction function place =>
    obtain rfl := Failure.stopped.inj hs
    cases hproblem
    have hmem := hp.mentioned rfl
    obtain ⟨hname,hplace⟩ := h.of_mem hmem
    obtain ⟨hle,hpoints⟩ := pointsAt_picture hname hplace
      (Stop.shortMessage ⟨some source,.unknownFunction name offset⟩)
    have hmessage : Stop.message ⟨some source,.unknownFunction name offset⟩ =
        Source.picture source (min offset source.length) name.length
          (Stop.shortMessage ⟨some source,.unknownFunction name offset⟩) := rfl
    rw [hmessage,Nat.min_eq_left hle]
    exact ⟨hmem,hpoints⟩
  | longIndex => cases hs
  | unwritable => cases hs
  | _ =>
    obtain rfl := Failure.stopped.inj hs
    cases hproblem

/-- In what is read from a text every call has its name at its offset and no two calls have the
same offset. A stop at an unknown function is one at such a call: its message tells the row and
column of the name, shows the line that the name stands in, and has carets just under the name. -/
theorem calls_stand_at_offsets (levels : Nat) (source : Text) :
    (∀ xs, readBlocks levels source = .ok xs → CallsMarked source (blocksReferences xs) ∧
      ∀ methods options vars stop,
        (Template.renderBlocks methods options (some source) vars xs).result = .error (.stopped stop) →
        stop.ShowsCall source (blocksReferences xs)) ∧
    ∀ x, readCondition levels source = .ok x → CallsMarked source x.references ∧
      ∀ methods vars stop,
        (Template.checkCondition methods (some source) vars x).result = .error (.stopped stop) →
        stop.ShowsCall source x.references := by
  constructor
  · intro xs hxs
    obtain ⟨last,hplaced⟩ := placed_readBlocks hxs
    refine ⟨hplaced.callsMarked,?_⟩
    intro methods options vars stop hstop
    have hsame := SameFor.refl (blocksReferences xs) vars methods
    have hrun := evalBlocks_alike hsame.agree xs (List.Subset.refl _) hsame.start
    obtain ⟨_,⟨output,hr,_⟩ | ⟨p,q,hpq,hr,_⟩⟩ :=
      Template.renderBlocks_of_matches options options (some source) (some source) hrun fun _ => rfl
    · cases hr.symm.trans hstop
    · exact hplaced.showsCall hpq (Except.error.inj (hr.symm.trans hstop))
  · intro x hx
    obtain ⟨last,hplaced⟩ := placed_readCondition hx
    refine ⟨hplaced.callsMarked,?_⟩
    intro methods vars stop hstop
    have hsame := SameFor.refl x.references vars methods
    have hrun := x.eval_agree (hsame.start.agree hsame.agree) (List.Subset.refl _)
    obtain ⟨_,⟨holds,hr,_⟩ | ⟨p,q,hpq,hr,_⟩⟩ :=
      Template.checkCondition_of_matches (some source) (some source) hrun
    · cases hr.symm.trans hstop
    · exact hplaced.showsCall hpq (Except.error.inj (hr.symm.trans hstop))

theorem calls_stand_at_offsets_of_pipeline :
    ∃ stop, (Template.renderBlocks
        (fun name _ => if name = ['f'] then some fun v _ => .ok v else none) {}
        (some "a\n\x7b\x7b:x -> f() -> g()\x7d\x7d".toList) []
        [.text ['a','\n'],.print (.mk (.variable ['x'] []) [.mk ['f'] [] 10,.mk ['g'] [] 17])]).result =
      .error (.stopped stop) ∧
    PointsAt "a\n\x7b\x7b:x -> f() -> g()\x7d\x7d".toList ['g'] 17 "Unknown function \"g\"".toList
      stop.message ∧
    CallsMarked "f -> f() eq g -> g()".toList [.variable ['f'],.method ['f'] 5,.variable ['g'],.method ['g'] 17] := by
  have hblocks : readBlocks 1 "a\n\x7b\x7b:x -> f() -> g()\x7d\x7d".toList =
      .ok [.text ['a','\n'],.print (.mk (.variable ['x'] []) [.mk ['f'] [] 10,.mk ['g'] [] 17])] := by
    cbv
  have hcondition : readCondition 1 "f -> f() eq g -> g()".toList =
      .ok (.compare .eq false (.mk (.variable ['f'] []) [.mk ['f'] [] 5])
        (.mk (.variable ['g'] []) [.mk ['g'] [] 17])) := by
    cbv
  have hstop : (Template.renderBlocks
      (fun name _ => if name = ['f'] then some fun v _ => .ok v else none) {}
      (some "a\n\x7b\x7b:x -> f() -> g()\x7d\x7d".toList) []
      [.text ['a','\n'],.print (.mk (.variable ['x'] []) [.mk ['f'] [] 10,.mk ['g'] [] 17])]).result =
      .error (.stopped ⟨_,.unknownFunction ['g'] 17⟩) := rfl
  have hshows := ((calls_stand_at_offsets 1 _).1 _ hblocks).2 _ {} [] _ hstop
  exact ⟨_,hstop,(hshows _ _ rfl).2,((calls_stand_at_offsets 1 _).2 _ hcondition).1⟩

end Stencil

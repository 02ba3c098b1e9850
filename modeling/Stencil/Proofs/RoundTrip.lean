import Mathlib
import Stencil.Proofs.Evaluation.Agreement
import Stencil.Proofs.Reading.Document
import Stencil.Proofs.Reading.PrintedBlock
import Stencil.Proofs.Reading.Shape

/-! # Trees and their source text

What is read is well formed, and what is well formed is read from its own source. The only
thing a source does not tell is where its calls stood in some other text.
-/
namespace Stencil
open Grammar
variable {levels : Nat}

theorem exists_readBlocks {xs : List Block} (hw : BlocksWellFormed false xs)
    (hn : blocksNesting xs ≤ levels) :
    ∃ ys, readBlocks levels (blocksSource false xs) = .ok ys ∧
      ys.map (Block.relocate nowhere) = xs.map (Block.relocate nowhere) := by
  have hc : (Cursor.start (blocksSource false xs)).rest = blocksSource false xs ++ [] := by
    rw [List.append_nil]
    rfl
  obtain ⟨ys,d,hys,he,hds⟩ := exists_blocks hw hn (Or.inl rfl) hc
  exact ⟨ys,readBlocks_eq_ok.mpr ⟨d,hys,hds⟩,he⟩

/-- The trees that are read under a number of levels are the well-formed ones that open no
more: whatever is read is of that kind, and every tree of that kind is read from its
canonical source, its calls told where they stand there. -/
theorem readBlocks_image (levels : Nat) :
    (∀ source xs, readBlocks levels source = .ok xs →
      BlocksWellFormed false xs ∧ blocksNesting xs ≤ levels) ∧
    (∀ xs, BlocksWellFormed false xs → blocksNesting xs ≤ levels →
      ∃ ys, readBlocks levels (blocksSource false xs) = .ok ys ∧
        ys.map (Block.relocate nowhere) = xs.map (Block.relocate nowhere)) :=
  ⟨fun _ _ h => shape_of_readBlocks h,fun _ hw hn => exists_readBlocks hw hn⟩

theorem readBlocks_image_of_loop : ∃ ys,
    readBlocks 1 "a\\\x7b\x7b\x7b\x7bfor i of [\"b\" -> f(k)]\x7d\x7d\x7b\x7b:i\x7d\x7d\x7b\x7b/for\x7d\x7d".toList =
      .ok ys ∧ BlocksWellFormed false ys ∧ ys.map (Block.relocate nowhere) =
      [.text ['a'],.text ['\x7b','\x7b'],
        .loop ['i'] (.items [.mk (.literal ['b']) [.mk ['f'] [.mk ['k'] none] 0]])
          [.print (.mk (.variable ['i'] []) [])]] := by
  let xs : List Block := [.text ['a'],.text ['\x7b','\x7b'],
    .loop ['i'] (.items [.mk (.literal ['b']) [.mk ['f'] [.mk ['k'] none] 0]])
      [.print (.mk (.variable ['i'] []) [])]]
  have hname : ∀ x, isNameStart x = true → IsName [x] := fun x hx =>
    ⟨hx,fun y hy => absurd hy List.not_mem_nil⟩
  have hw : BlocksWellFormed false xs := by
    refine ⟨⟨by decide,List.all_eq_true.mp (by decide),by decide⟩,
      ⟨by decide,List.all_eq_true.mp (by decide),by decide⟩,⟨hname _ (by decide),?_,?_⟩,trivial⟩
    · refine ⟨by simp,fun item hi => ?_⟩
      obtain rfl := List.mem_singleton.mp hi
      exact ⟨trivial,⟨hname _ (by decide),hname _ (by decide),trivial⟩,trivial⟩
    · exact ⟨⟨⟨hname _ (by decide),trivial⟩,trivial⟩,trivial⟩
  obtain ⟨ys,hys,he⟩ := (readBlocks_image 1).2 xs hw (by decide)
  exact ⟨ys,hys,((readBlocks_image 1).1 _ ys hys).1,he⟩

theorem exists_readCondition {c : Condition} (hw : c.WellFormed) (hn : c.nesting ≤ levels) :
    ∃ c', readCondition levels c.print = .ok c' ∧ c'.relocate nowhere = c.relocate nowhere := by
  have hend : EndsCondition [] := by
    intro x hx
    cases hx
  have hc : (Cursor.start c.print).rest = c.print ++ [] := by
    rw [List.append_nil]
    rfl
  obtain ⟨c',d,hx,he,hds⟩ := exists_condition hw hn hend hc
  refine ⟨c',readCondition_eq_ok.mpr ⟨d,hx,?_⟩,he⟩
  rw [Cursor.rest_skipBlank,hds]
  rfl

/-- Trees that differ in offsets alone print the same. -/
theorem Condition.print_eq_of_relocate {c c' : Condition}
    (h : c'.relocate nowhere = c.relocate nowhere) : c'.print = c.print := by
  rw [← Condition.print_relocate nowhere c',h,Condition.print_relocate]

/-- Trees that differ in offsets alone evaluate alike where methods go by name. -/
theorem Condition.eval_eq_of_relocate {c c' : Condition}
    (h : c'.relocate nowhere = c.relocate nowhere) (scopes : Scopes) (methods : Text → Option Method) :
    (c'.eval ⟨scopes,.byName methods⟩).relocate nowhere =
      (c.eval ⟨scopes,.byName methods⟩).relocate nowhere := by
  have heval := Condition.eval_relocate nowhere ⟨scopes,.byName methods⟩
  simp only [Env.relocate_byName] at heval
  rw [← heval,h,heval]

/-- A condition that was read is read again from what it prints, under the same number of
levels: the tree is the same but for offsets, prints the same and evaluates to the same
result with the same events. -/
theorem readCondition_print {source : Text} {c : Condition} (h : readCondition levels source = .ok c) :
    ∃ c', readCondition levels c.print = .ok c' ∧ c'.relocate nowhere = c.relocate nowhere ∧
      c'.print = c.print ∧ ∀ scopes methods,
        (c'.eval ⟨scopes,.byName methods⟩).relocate nowhere =
          (c.eval ⟨scopes,.byName methods⟩).relocate nowhere := by
  obtain ⟨hw,hn⟩ := shape_of_readCondition h
  obtain ⟨c',hc',he⟩ := exists_readCondition hw hn
  exact ⟨c',hc',he,Condition.print_eq_of_relocate he,fun scopes methods =>
    Condition.eval_eq_of_relocate he scopes methods⟩

theorem readCondition_print_of_spaced :
    readCondition 3 " x ->f( k )or'\"'not in[eq]".toList =
      .ok (.join .or (.holds (.mk (.variable ['x'] []) [.mk ['f'] [.mk ['k'] none] 5]))
        (.among true (.ofText ['"']) [.mk (.variable ['e','q'] []) []])) ∧
    ∃ c', readCondition 3 "x -> f(k) or \"\\\"\" not in [eq]".toList = .ok c' ∧
      c'.print = "x -> f(k) or \"\\\"\" not in [eq]".toList := by
  have hread : readCondition 3 " x ->f( k )or'\"'not in[eq]".toList =
      .ok (.join .or (.holds (.mk (.variable ['x'] []) [.mk ['f'] [.mk ['k'] none] 5]))
        (.among true (.ofText ['"']) [.mk (.variable ['e','q'] []) []])) := by cbv
  obtain ⟨c',hc',_,hp,_⟩ := readCondition_print hread
  exact ⟨hread,c',hc',hp⟩

end Stencil

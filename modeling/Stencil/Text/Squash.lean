import Stencil.Text.Basic

/-! # Squashing white space

`squash` looks at each maximal run of blank characters: two or more become one space, a
lone newline vanishes and any other lone blank stays. `stripLineEnds` removes the spaces
that stand directly before a newline.
-/
namespace Stencil.Text

/-- The blank characters read since the last visible one. -/
inductive BlankRun where
  | empty
  | single (c : Char)
  | many

def BlankRun.settle : BlankRun → Text
  | .empty => []
  | .single c => if c = '\n' then [] else [c]
  | .many => [' ']

def BlankRun.push (c : Char) : BlankRun → BlankRun
  | .empty => .single c
  | .single _ => .many
  | .many => .many

def squashAfter : BlankRun → Text → Text
  | run, [] => run.settle
  | run, c :: rest =>
    if isBlank c then squashAfter (run.push c) rest
    else run.settle ++ c :: squashAfter .empty rest

def squash (t : Text) : Text := squashAfter .empty t

/-- Drops every space that only spaces separate from a newline after it. -/
def stripLineEnds : Text → Text
  | [] => []
  | c :: rest =>
    let kept := stripLineEnds rest
    if c = ' ' ∧ kept.head? = some '\n' then kept else c :: kept

end Stencil.Text

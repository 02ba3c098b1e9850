import Stencil.Text.Digits

/-! # Places in a text

A place is an offset into a text; for people it is a row and a column, both from one. Only
a newline ends a row. `picture` shows a message together with the line it is about.
-/
namespace Stencil

structure Position where
  row : Nat := 1
  column : Nat := 1
  deriving DecidableEq, Repr

namespace Position

def next (p : Position) (c : Char) : Position :=
  if c = '\n' then ⟨p.row + 1, 1⟩ else ⟨p.row, p.column + 1⟩

def text (p : Position) : Text := natText p.row ++ ':' :: natText p.column

end Position

namespace Source

/-- The characters of the line at `offset` that stand before it. -/
def lineBefore (source : Text) (offset : Nat) : Text :=
  ((source.take offset).reverse.takeWhile (· ≠ '\n')).reverse

def lineAfter (source : Text) (offset : Nat) : Text := (source.drop offset).takeWhile (· ≠ '\n')

def lineAt (source : Text) (offset : Nat) : Text :=
  lineBefore source offset ++ lineAfter source offset

/-- The position of an offset, found by counting the newlines before it. -/
def position (source : Text) (offset : Nat) : Position :=
  ⟨(source.take offset).count '\n' + 1, (lineBefore source offset).length + 1⟩

/-- The offset that lies `shift` characters away, kept within the text. -/
def offsetBy (source : Text) (offset : Nat) (shift : Int) : Nat :=
  min (offset + shift).toNat source.length

/-- The message with its position, the line it is about and a mark under `width`
characters of that line, one at least. -/
def picture (source : Text) (offset width : Nat) (message : Text) : Text :=
  message ++ " at position ".toList ++ (position source offset).text ++ ":\n\n".toList ++
    lineAt source offset ++ '\n' :: List.replicate (lineBefore source offset).length ' ' ++
    List.replicate (max width 1) '^' ++ " - ".toList ++ message

end Source

end Stencil

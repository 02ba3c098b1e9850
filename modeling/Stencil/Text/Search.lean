import Stencil.Text.Basic

/-! # Occurrences of one text in another

`breakAt?` cuts a text at the leftmost occurrence of a pattern. Replacing the first
occurrence and matching a wildcard pattern are built on it.
-/
namespace Stencil.Text

/-- What stands before and after the leftmost occurrence of `pattern`. -/
def breakAt? (pattern : Text) : Text → Option (Text × Text)
  | [] => if pattern.isEmpty then some ([], []) else none
  | c :: rest =>
    match pattern.isPrefixOf? (c :: rest) with
    | some after => some ([], after)
    | none => (breakAt? pattern rest).map fun cut => (c :: cut.1, cut.2)

/-- Puts `new` in the place of the leftmost occurrence of `old`. An empty `old` occurs
at the very start. -/
def replaceFirst (old new t : Text) : Text :=
  match breakAt? old t with
  | some (before, after) => before ++ new ++ after
  | none => t

/-- Whether the parts occur in this order without overlap and the last one ends the
text. Taking each at its leftmost place leaves the most room for those that follow. -/
def endsWithParts : List Text → Text → Bool
  | [], t => t.isEmpty
  | [last], t => last.isSuffixOf t
  | part :: parts, t =>
    match breakAt? part t with
    | some (_, after) => endsWithParts parts after
    | none => false

/-- Whether the whole text has the shape of `pattern`, in which `%` stands for any run of
characters and every other character for itself. -/
def isLike (pattern t : Text) : Bool :=
  match pattern.splitOn '%' with
  | [] => t.isEmpty
  | [whole] => t == whole
  | first :: parts =>
    match first.isPrefixOf? t with
    | some after => endsWithParts parts after
    | none => false

end Stencil.Text

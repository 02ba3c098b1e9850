import Stencil.Text.Basic

/-! # Paths

A path is a list of names, perhaps under a root. Empty names and single dots go, double
dots stay. Two slashes at the beginning are a root of their own.
-/
namespace Stencil

structure Path where
  root : Text := []
  names : List Text := []
  deriving DecidableEq, Repr

namespace Path

def rootOf (t : Text) : Text :=
  match (t.takeWhile (· == '/')).length with
  | 0 => []
  | 2 => ['/', '/']
  | _ => ['/']

def ofText (t : Text) : Path :=
  { root := rootOf t, names := (t.splitOn '/').filter fun name => name ≠ [] ∧ name ≠ ['.'] }

def text (path : Path) : Text :=
  if path.root = [] ∧ path.names = [] then ['.'] else path.root ++ Text.join ['/'] path.names

def named? (name : Text) : Option Path := if name = [] then none else some (ofText name)

end Path

end Stencil

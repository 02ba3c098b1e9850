import Stencil.Text.Basic

/-! # Options

The options of one rendering: whether spaces at line ends go, the squash mode that the
output begins with, and how many levels a template may nest.
-/
namespace Stencil

inductive SquashMode where
  | on
  | off
  deriving DecidableEq, Repr

namespace SquashMode

def name : SquashMode → Text
  | on => "on".toList
  | off => "off".toList

def ofName? (name : Text) : Option SquashMode := [on, off].find? (·.name == name)

end SquashMode

structure Options where
  trimEndLine : Bool := true
  squash : SquashMode := .on
  maxDepth : Nat := 100
  deriving DecidableEq, Repr

end Stencil

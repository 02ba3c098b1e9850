import Stencil.Tree.Condition

/-! # Blocks

A template is a sequence of blocks: text and directives, of which conditionals and loops
have a body of blocks of their own.
-/
namespace Stencil

/-- The sides on which a trim marker removes blanks. -/
inductive Direction where
  | left
  | right
  | both
  deriving DecidableEq, Repr

namespace Direction

def name : Direction → Text
  | left => "left".toList
  | right => "right".toList
  | both => "both".toList

def ofName? (name : Text) : Option Direction := [left, right, both].find? (·.name == name)

def isLeftward : Direction → Bool
  | left => true
  | right => false
  | both => true

def isRightward : Direction → Bool
  | left => false
  | right => true
  | both => true

end Direction

/-- Where a loop takes its values from: the numbers from `first` up to below `last`, or the
items of an array. -/
inductive LoopSource where
  | range (first last : Arg)
  | items (items : List Arg)

inductive Block where
  | text (t : Text)
  | branch (condition : Condition) (body : List Block)
  | loop (name : Text) (source : LoopSource) (body : List Block)
  | set (name : Text) (arg : Arg)
  | conf (key : Text) (arg : Arg)
  | print (arg : Arg)
  | trim (direction : Direction)
  | newline
  /-- A node of some other kind in the place of a block. It cannot be evaluated. -/
  | foreign (kind : Text)

end Stencil

import Stencil.Settings.Options
import Stencil.Tree.Block

/-! # Fragments

Evaluation turns a template into fragments: strings of the template itself, printed
values, and markers that take no room. Strings that meet become one, and a trim marker
removes the blanks of the fragments beside it.
-/
namespace Stencil

inductive Fragment where
  | string (t : Text)
  | value (t : Text)
  | trim (direction : Direction)
  | conf (key setting : Text)
  deriving DecidableEq, Repr

namespace Fragment

def content : Fragment → Text
  | string t => t
  | value t => t
  | trim _ => []
  | conf _ _ => []

def mapContent (f : Text → Text) : Fragment → Fragment
  | string t => string (f t)
  | value t => value (f t)
  | trim direction => trim direction
  | conf key setting => conf key setting

def mergeCons : Fragment → List Fragment → List Fragment
  | string s, string t :: rest => string (s ++ t) :: rest
  | f, rest => f :: rest

/-- Joins neighbouring strings. -/
def merge (fs : List Fragment) : List Fragment := fs.foldr mergeCons []

def trimsBefore : Fragment → Bool
  | trim direction => direction.isLeftward
  | _ => false

def trimsAfter : Fragment → Bool
  | trim direction => direction.isRightward
  | _ => false

/-- A fragment between its neighbours, trimmed on the sides where one of them asks for it. -/
def trimBetween (before : Option Fragment) (f : Fragment) (after : Option Fragment) : Fragment :=
  let f := if before.any trimsAfter then f.mapContent Text.trimStart else f
  if after.any trimsBefore then f.mapContent Text.trimEnd else f

def applyTrimsAfter (before : Option Fragment) : List Fragment → List Fragment
  | [] => []
  | f :: rest => trimBetween before f rest.head? :: applyTrimsAfter (some f) rest

/-- Lets every trim marker work on its neighbours. -/
def applyTrims (fs : List Fragment) : List Fragment := applyTrimsAfter none fs

end Fragment

end Stencil

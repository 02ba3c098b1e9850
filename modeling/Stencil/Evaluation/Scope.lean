import Stencil.Value.Mapping

/-! # Scopes

A stack of frames, the innermost first. The outermost frame holds the variables of the
caller; above it lies a frame of the template's own, and one more for every body that is
being evaluated. A path is looked up frame by frame, each time as a whole.
-/
namespace Stencil

abbrev Frame := Mapping

structure Scopes where
  inner : Frame
  outer : List Frame

namespace Scopes

/-- The caller's variables below an empty frame. -/
def start (vars : Mapping) : Scopes := ⟨[], [vars]⟩

def frames (s : Scopes) : List Frame := s.inner :: s.outer

def depth (s : Scopes) : Nat := s.frames.length

def push (frame : Frame) (s : Scopes) : Scopes := ⟨frame, s.frames⟩

/-- Closes the innermost frame, unless it is the only one. -/
def pop (s : Scopes) : Scopes :=
  match s.outer with
  | [] => s
  | frame :: outer => ⟨frame, outer⟩

def set (name : Text) (value : Value) (s : Scopes) : Scopes :=
  { s with inner := Mapping.insert (.text name) value s.inner }

def roots (s : Scopes) (root : Text) : List Value := s.frames.filterMap (Mapping.get? root)

end Scopes

/-- The first value that is something, or the empty text. -/
def firstPresent (found : List Value) : Value := (found.find? (!·.isNull)).getD (.text [])

/-- The value to which the keys lead from the first root from which they lead to something,
and the roots after that one. -/
def firstReached (keys : List Text) : List Value → Landing (Value × List Value)
  | [] => .nowhere
  | root :: roots =>
    match (root.follow keys).bind Value.present with
    | .found v => .found (v, roots)
    | .nowhere => firstReached keys roots
    | .unreadable => .unreadable

namespace Scopes

/-- The value of a path in the innermost frame in which all of it resolves, or the empty
text. -/
def lookup (root : Text) (keys : List Text) (s : Scopes) : Landing Value :=
  match firstReached keys (s.roots root) with
  | .found (v, _) => .found v
  | .nowhere => .found (.text [])
  | .unreadable => .unreadable

end Scopes

/-- A walk along a path, in the innermost frame that may still resolve it. -/
structure Walk where
  /-- The keys so far. -/
  keys : List Text
  /-- Where they lead in that frame. -/
  place : Value
  /-- What the frames further out hold under the root name. -/
  roots : List Value

namespace Walk

/-- Takes a step. Where the frame has nothing to offer, a frame further out takes over with
the keys so far. -/
def take (key : Text) (walk : Walk) : Landing Walk :=
  let keys := walk.keys ++ [key]
  match walk.place.step key with
  | .found v => .found ⟨keys, v, walk.roots⟩
  | .nowhere => (firstReached keys walk.roots).map fun (v, roots) => ⟨keys, v, roots⟩
  | .unreadable => .unreadable

def arrival (walk : Walk) : Value := firstPresent (walk.place :: walk.roots)

end Walk

end Stencil

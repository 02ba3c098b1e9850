import Stencil.Files.Basic
import Stencil.Value.Mapping
import Stencil.Yaml.Node
import Stencil.Yaml.Scalar

/-! # Documents

A text holds one document at most: JSON, or block style with flow style in it. Anchors,
tags, directives, merged entries and block scalars are not read.

The nodes of a document are valued layer by layer, from the outside in, so of several flaws
the one in the outermost collection shows, and of those in one collection the first. A key
is valued with all that is in it together with the collection it belongs to.
-/
namespace Stencil.Yaml

/-- A flaw, and the number of collections around it. -/
structure Finding where
  layer : Nat
  flaw : Flaw
  deriving DecidableEq, Repr

abbrev Valued (α : Type) := Except Finding α

/-- Both results, or the finding in the outer layer; of two in the same layer the first. -/
def both : Valued α → Valued β → Valued (α × β)
  | .ok a, .ok b => .ok (a, b)
  | .ok _, .error found => .error found
  | .error found, .ok _ => .error found
  | .error found, .error later => .error (if later.layer < found.layer then later else found)

/-- A value as a key. A list becomes a tuple, a mapping cannot be a key. -/
def asKey : Value → Except Flaw Value
  | .list items => .ok (.tuple items)
  | .mapping _ => .error .malformed
  | v => .ok v

def isCollection : Value → Bool
  | .list _ => true
  | .mapping _ => true
  | _ => false

def checkKey (key : Value) (others : List Value) : Except Flaw Unit :=
  match key with
  | .tuple items =>
    if items.any isCollection then .error .nestedKey
    else if key.isAmong others then .error .malformed
    else .ok ()
  | _ => if key.isAmong others then .error .malformed else .ok ()

namespace Node

def isDefaultMark : Node → Bool
  | .scalar _ t => t == defaultMark
  | _ => false

mutual

/-- The value of a node with `layer` collections around it. What is in a collection lies one
layer further in, unless the node is part of a key. -/
def value (inKey : Bool) (layer : Nat) : Node → Valued Value
  | .scalar plain t => if plain then (plainValue t).mapError (⟨layer, ·⟩) else .ok (.text t)
  | .sequence items => (itemValues inKey (if inKey then layer else layer + 1) items).map .list
  | .mapping entries =>
    (entryValues inKey (if inKey then layer else layer + 1) [] entries).map .mapping

def itemValues (inKey : Bool) (layer : Nat) : List Node → Valued (List Value)
  | [] => .ok []
  | item :: items =>
    (both (value inKey layer item) (itemValues inKey layer items)).map fun (v, vs) => v :: vs

/-- The values of entries that come after those with the keys `others`. -/
def entryValues (inKey : Bool) (layer : Nat) (others : List Value) :
    List (Node × Node) → Valued (List (Value × Value))
  | [] => .ok []
  | (k, v) :: entries => do
    let key ← if k.isDefaultMark then .ok (.text defaultMark) else value true layer k
    let key ← (asKey key).mapError (⟨layer, ·⟩)
    let rest : Valued (List (Value × Value)) := do
      (checkKey key others).mapError (⟨layer, ·⟩)
      entryValues inKey layer (key :: others) entries
    (both (value inKey layer v) rest).map fun (v, entries) => (key, v) :: entries

end

end Node

/-- First and last code point of each run of characters that a document may hold. -/
def printableRanges : List (Nat × Nat) :=
  [(0x09, 0x0a), (0x20, 0x7e), (0x85, 0x85), (0xa0, 0xd7ff), (0xe000, 0xfffd),
   (0x10000, 0x10ffff)]

def unifyBreaks (t : Text) : Text := t.map fun c => if c = '\u0085' then '\n' else c

def byteOrderMark : Char := '\ufeff'

def withoutMark (source : Text) : Text :=
  if source.head? = some byteOrderMark then source.tail else source

/-- The value of the only document in a text, null if there is none. -/
def value (source : Text) : Except Flaw Value :=
  if source.all (inRanges printableRanges) then
    match (Token.ofText? (unifyBreaks (withoutMark source))).bind Node.ofTokens? with
    | some node => (node.value false 0).mapError (·.flaw)
    | none => .error .malformed
  else .error .malformed

def Flaw.asDocument : Flaw → DocumentFlaw
  | malformed => .malformed "not a document".toList
  | emptyNumeral => .broken .emptyNumeral
  | longNumeral => .broken .longNumeral
  | nestedKey => .broken .nestedKey

def read : DocumentReader := fun source => (value source).mapError Flaw.asDocument

end Stencil.Yaml

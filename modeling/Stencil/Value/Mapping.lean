import Stencil.Value.Equality

/-! # Mappings and paths

Looking up and writing entries of a mapping, and one step of a path into a value: a
mapping by key, a list or tuple by the decimal number of an item.
-/
namespace Stencil

namespace Mapping

def get? (key : Text) : Mapping → Option Value
  | [] => none
  | (k, v) :: entries => if k.isText key then some v else get? key entries

/-- Writes an entry. An equal key keeps its place and gets the new value. -/
def insert (key value : Value) : Mapping → Mapping
  | [] => [(key, value)]
  | (k, v) :: entries =>
    if Value.isSameNaN k key || k.equal key then (k, value) :: entries
    else (k, v) :: insert key value entries

def ofEntries (entries : List (Value × Value)) : Mapping :=
  entries.foldl (fun written entry => insert entry.1 entry.2 written) []

end Mapping

/-- Where a path leads. -/
inductive Landing (α : Type) where
  | found (a : α)
  | nowhere
  /-- An index on the way has more digits than are read. -/
  | unreadable
  deriving DecidableEq, Repr

namespace Landing

def ofOption : Option α → Landing α
  | some a => found a
  | none => nowhere

def bind (f : α → Landing β) : Landing α → Landing β
  | found a => f a
  | nowhere => nowhere
  | unreadable => unreadable

def map (f : α → β) : Landing α → Landing β := bind fun a => found (f a)

end Landing

/-- The item whose decimal number is `key`. -/
def itemUnder (key : Text) (items : List Value) : Landing Value :=
  match natOfText? key with
  | none => .nowhere
  | some n => if numeralLimit < key.length then .unreadable else .ofOption items[n]?

namespace Value

/-- A path that leads to null leads nowhere. -/
def present (v : Value) : Landing Value := if v.isNull then .nowhere else .found v

def step (key : Text) (v : Value) : Landing Value :=
  let landing : Landing Value :=
    match v with
    | mapping entries => .ofOption (Mapping.get? key entries)
    | list items => itemUnder key items
    | tuple items => itemUnder key items
    | _ => .nowhere
  landing.bind present

def follow : List Text → Value → Landing Value
  | [], v => .found v
  | key :: keys, v => (v.step key).bind (follow keys)

end Value

end Stencil

import Stencil.Number.Basic
import Stencil.Text.Quoted

/-! # Values

A value is what a variable holds and a method takes and returns. Mappings keep their
entries in order of insertion, and no two of their keys are equal.
-/
namespace Stencil

/-- An object of a kind that templates know nothing of but how it is written. -/
structure ForeignObject where
  kind : String
  /-- What it prints as. -/
  text : Text
  text_ne_nil : text ≠ []
  /-- The form in which messages quote it. -/
  shown : Text
  /-- Whether it has nothing in it. -/
  isVacant : Bool
  deriving DecidableEq, Repr

def ForeignObject.bytes (octets : List UInt8) : ForeignObject where
  kind := "bytes"
  text := shownBytes octets
  text_ne_nil := by simp [shownBytes]
  shown := shownBytes octets
  isVacant := octets.isEmpty

inductive Value where
  | null
  | bool (b : Bool)
  | int (i : Int)
  | float (x : Double)
  | text (t : Text)
  | list (items : List Value)
  | tuple (items : List Value)
  | mapping (entries : List (Value × Value))
  | foreign (object : ForeignObject)
  deriving Repr

instance : Inhabited Value := ⟨.null⟩

abbrev Mapping := List (Value × Value)

namespace Value

/-- What holds of a value as soon as it holds of its items, or of the values of its entries,
holds of every value. -/
@[induction_eliminator]
theorem induct {motive : Value → Prop} (null : motive null) (bool : ∀ b, motive (bool b))
    (int : ∀ i, motive (int i)) (float : ∀ x, motive (float x)) (text : ∀ t, motive (text t))
    (list : ∀ items, (∀ v ∈ items, motive v) → motive (list items))
    (tuple : ∀ items, (∀ v ∈ items, motive v) → motive (tuple items))
    (mapping : ∀ entries, (∀ entry ∈ entries, motive entry.2) → motive (mapping entries))
    (foreign : ∀ object, motive (foreign object)) (v : Value) : motive v :=
  Value.rec (motive_1 := motive) (motive_2 := fun items => ∀ v ∈ items, motive v)
    (motive_3 := fun entries => ∀ entry ∈ entries, motive entry.2)
    (motive_4 := fun entry => motive entry.2)
    null bool int float text list tuple mapping foreign
    (fun _ h => nomatch h)
    (fun _ _ hitem hitems => List.forall_mem_cons.mpr ⟨hitem, hitems⟩)
    (fun _ h => nomatch h)
    (fun _ _ hentry hentries => List.forall_mem_cons.mpr ⟨hentry, hentries⟩)
    (fun _ _ _ hvalue => hvalue) v

def kindName : Value → String
  | null => "NoneType"
  | bool _ => "bool"
  | int _ => "int"
  | float _ => "float"
  | text _ => "str"
  | list _ => "list"
  | tuple _ => "tuple"
  | mapping _ => "dict"
  | foreign object => object.kind

def isNull : Value → Bool
  | null => true
  | _ => false

def isText (t : Text) : Value → Bool
  | text s => s == t
  | _ => false

theorem isText_iff {t : Text} {v : Value} : v.isText t = true ↔ v = text t := by
  cases v <;> simp [isText]

def toText? : Value → Option Text
  | text t => some t
  | _ => none

/-- Truth values count as the numbers zero and one. -/
def toNumber? : Value → Option Number
  | bool b => some (.whole b.toNat)
  | int i => some (.whole i)
  | float x => some (.real x)
  | _ => none

end Value

end Stencil

import Stencil.Value.Basic

/-! # Equality of values

Numbers and truth values compare by their exact value, lists and tuples item by item, a
list never equals a tuple, and mappings compare without regard to order. Inside a
container a NaN counts as equal to itself.
-/
namespace Stencil.Value

def isSameNaN : Value → Value → Bool
  | float (.nan m), float (.nan n) => m == n
  | _, _ => false

def numbersEqual (a b : Value) : Bool :=
  match a.toNumber?, b.toNumber? with
  | some p, some q => p.equal q
  | _, _ => false

mutual

def equal : Value → Value → Bool
  | null, null => true
  | text s, text t => s == t
  | list xs, list ys => itemsEqual xs ys
  | tuple xs, tuple ys => itemsEqual xs ys
  | mapping es, mapping fs => es.length == fs.length && entriesIn es fs
  | foreign a, foreign b => a == b
  | a, b => numbersEqual a b

def itemsEqual : List Value → List Value → Bool
  | [], [] => true
  | x :: xs, y :: ys => (isSameNaN x y || equal x y) && itemsEqual xs ys
  | _, _ => false

/-- Whether every entry of the first mapping has an equal one in the second. -/
def entriesIn : List (Value × Value) → List (Value × Value) → Bool
  | [], _ => true
  | (key, value) :: es, fs =>
    fs.any (fun entry =>
      (isSameNaN key entry.1 || equal key entry.1) &&
        (isSameNaN value entry.2 || equal value entry.2)) && entriesIn es fs

end

/-- Whether `x` is one of `items`: the same NaN or an equal value. -/
def isAmong (x : Value) (items : List Value) : Bool :=
  items.any fun item => isSameNaN x item || equal x item

end Stencil.Value

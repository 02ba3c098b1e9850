import Stencil.Value.Basic

/-! # Text of values

`display` is what a printed value looks like: text as it is, nothing for null, the items
of a list joined by commas, and a mapping as compact JSON. Not every value has such a text:
a number may be too long, and a key of a mapping of a kind that no name in JSON can stand
for. `shown` is the form in which messages quote a value.
-/
namespace Stencil

inductive Unwritable where
  /-- A number has more digits than are written. -/
  | longNumeral
  /-- A key is neither a text nor one of the scalars that JSON has words for. -/
  | foreignKey
  deriving DecidableEq, Repr

namespace Value

def boolText (b : Bool) : Text := if b then "true".toList else "false".toList

/-- Whether a number has no more digits than are written. -/
def isShort (i : Int) : Bool := decide (i.natAbs < Nat.pow 10 numeralLimit)

def numeralText (i : Int) : Except Unwritable Text :=
  if isShort i then .ok (intText i) else .error .longNumeral

/-- A double in JSON, where infinity and NaN are words of their own. -/
def jsonDouble (x : Double) : Text := x.textWith "Infinity".toList "NaN".toList

/-- The text that a key gives in JSON, where every key is a string. -/
def jsonKey : Value → Except Unwritable Text
  | text t => .ok t
  | null => .ok "null".toList
  | bool b => .ok (boolText b)
  | int i => numeralText i
  | float x => .ok (jsonDouble x)
  | _ => .error .foreignKey

def jsonArray (items : List Text) : Text := '[' :: (Text.join [','] items ++ [']'])

def jsonObject (members : List Text) : Text := '\x7b' :: (Text.join [','] members ++ ['\x7d'])

mutual

def json : Value → Except Unwritable Text
  | null => .ok "null".toList
  | bool b => .ok (boolText b)
  | int i => numeralText i
  | float x => .ok (jsonDouble x)
  | text t => .ok (jsonString t)
  | list items => (jsonItems items).map jsonArray
  | tuple items => (jsonItems items).map jsonArray
  | mapping entries => (jsonEntries entries).map jsonObject
  | foreign object => .ok (jsonString object.text)

def jsonItems : List Value → Except Unwritable (List Text)
  | [] => .ok []
  | item :: items => do
    let part ← json item
    let parts ← jsonItems items
    return part :: parts

/-- The key of an entry is written before its value. -/
def jsonEntries : List (Value × Value) → Except Unwritable (List Text)
  | [] => .ok []
  | (key, value) :: entries => do
    let name ← jsonKey key
    let part ← json value
    let parts ← jsonEntries entries
    return (jsonString name ++ ':' :: part) :: parts

end

mutual

def display : Value → Except Unwritable Text
  | null => .ok []
  | bool b => .ok (boolText b)
  | int i => numeralText i
  | float x => .ok x.text
  | text t => .ok t
  | list items => (displayItems items).map (Text.join [','])
  | tuple items => (displayItems items).map (Text.join [','])
  | mapping entries => json (mapping entries)
  | foreign object => .ok object.text

def displayItems : List Value → Except Unwritable (List Text)
  | [] => .ok []
  | item :: items => do
    let part ← display item
    let parts ← displayItems items
    return part :: parts

end

/-- A value holds as a condition if it prints as something. -/
def isTruthy (v : Value) : Except Unwritable Bool := v.display.map (· != [])

mutual

def shown : Value → Text
  | null => "None".toList
  | bool b => if b then "True".toList else "False".toList
  | int i => intText i
  | float x => x.text
  | text t => shownText t
  | list items => '[' :: (Text.join [',', ' '] (shownItems items) ++ [']'])
  | tuple [item] => '(' :: (shown item ++ [',', ')'])
  | tuple items => '(' :: (Text.join [',', ' '] (shownItems items) ++ [')'])
  | mapping entries => '\x7b' :: (Text.join [',', ' '] (shownEntries entries) ++ ['\x7d'])
  | foreign object => object.shown

def shownItems : List Value → List Text
  | [] => []
  | item :: items => shown item :: shownItems items

def shownEntries : List (Value × Value) → List Text
  | [] => []
  | (key, value) :: entries => (shown key ++ ':' :: ' ' :: shown value) :: shownEntries entries

end

mutual

/-- Whether no number in the value, in a key or elsewhere, has more digits than are written.
Only of such a value is there a form for messages. -/
def isWritable : Value → Bool
  | int i => isShort i
  | list items => areWritable items
  | tuple items => areWritable items
  | mapping entries => entriesWritable entries
  | _ => true

def areWritable : List Value → Bool
  | [] => true
  | item :: items => isWritable item && areWritable items

def entriesWritable : List (Value × Value) → Bool
  | [] => true
  | (key, value) :: entries => isWritable key && isWritable value && entriesWritable entries

end

/-- A mapping key as text: what is text or foreign as it prints, any other key as messages show it. -/
def keyText : Value → Text
  | text t => t
  | foreign object => object.text
  | key => shown key

end Value

end Stencil

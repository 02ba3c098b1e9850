import Stencil.Value.Display
import Stencil.Value.Equality
import Stencil.Text.Search

/-! # Methods

A method takes a value and named parameters and returns a value, or fails with a message or
for a value that has no text. Four methods are standard: `length`, `replace`, `match` and `case`.
-/
namespace Stencil

/-- Parameters in the order in which their keys were first given. -/
abbrev Params := List (Text × Text)

namespace Params

def get? (key : Text) (params : Params) : Option Text :=
  (params.find? (·.1 == key)).map (·.2)

/-- Gives a parameter its value; a key that is there already keeps its place. -/
def insert (key value : Text) : Params → Params
  | [] => [(key, value)]
  | (k, v) :: params => if k = key then (k, value) :: params else (k, v) :: insert key value params

def ofList (given : List (Text × Text)) : Params :=
  given.foldl (fun params entry => insert entry.1 entry.2 params) []

end Params

inductive MethodProblem where
  | failed (message : Text)
  | unwritable (cause : Unwritable)
  deriving DecidableEq, Repr

abbrev Method := Value → Params → Except MethodProblem Value

/-- The methods that a template can call, by name and by the offset of the call. -/
abbrev Registry := Text → Nat → Option Method

namespace Registry

def before (host base : Registry) : Registry := fun name offset =>
  (host name offset).or (base name offset)

def ofList (methods : List (Text × Method)) : Registry := fun name _ =>
  (methods.find? (·.1 == name)).map (·.2)

end Registry

namespace Method

/-- How many characters, items or entries a value has; of a scalar, how long its text is. -/
def size : Value → Except Unwritable Nat
  | .text t => .ok t.length
  | .list items => .ok items.length
  | .tuple items => .ok items.length
  | .mapping entries => .ok entries.length
  | v => v.display.map List.length

def replaced (params : Params) (t : Text) : Text :=
  Text.replaceFirst ((params.get? "from".toList).getD []) ((params.get? "to".toList).getD []) t

/-- The text of the last position in a sequence whose length is given as a numeral; no
length at all counts as zero. -/
def lastPosition? (length : Text) : Option Text :=
  if length.trim = [] then some "-1".toList
  else
    (Double.ofText? length).map fun (x : Double) =>
      (Number.real (x.addInt (-1))).text

/-- The parameter that fits a position: `first` for position zero, `last` for the last
one, `middle` elsewhere. Where only one of the two is given, a position that is both is
treated as a middle. -/
def chosen (params : Params) (position : Text) : Text :=
  let isFirst := position = ['0']
  let isLast := lastPosition? ((params.get? "length".toList).getD []) = some position
  let middle := (params.get? "middle".toList).getD []
  match params.get? "first".toList, params.get? "last".toList with
  | first, none => if isFirst ∧ ¬isLast then first.getD [] else middle
  | none, some last => if ¬isFirst ∧ isLast then last else middle
  | some first, some last => if isFirst then first else if isLast then last else middle

/-- Whether the value equals the parameter `on`; without one, whether it is null. -/
def isOn (v : Value) (params : Params) : Bool :=
  match params.get? "on".toList with
  | some t => v.isText t
  | none => v.isNull

/-- `then` if the value is the one asked for, otherwise `else` or the value itself. -/
def switched (v : Value) (params : Params) : Value :=
  if isOn v params then .text ((params.get? "then".toList).getD [])
  else ((params.get? "else".toList).map .text).getD v

def ofWriting (written : Except Unwritable Text) : Except MethodProblem Value :=
  (written.map Value.text).mapError .unwritable

end Method

def Registry.standard : Registry :=
  .ofList
    [("length".toList, fun v _ => Method.ofWriting ((Method.size v).map natText)),
     ("replace".toList, fun v params => Method.ofWriting (v.display.map (Method.replaced params))),
     ("match".toList, fun v params => Method.ofWriting (v.display.map (Method.chosen params))),
     ("case".toList, fun v params => .ok (Method.switched v params))]

end Stencil

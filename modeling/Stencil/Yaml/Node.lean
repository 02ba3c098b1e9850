import Stencil.Yaml.Token

/-! # Nodes

A document is a tree of nodes before its scalars are given a meaning.

    node           →  scalar | "[" items "]" | "{" entries "}" | block collection
    items          →  (item ("," item)* ","?)?
    item           →  node | key node? (value node?)?
    entries        →  (entry ("," entry)* ","?)?
    entry          →  node | key node? (value node?)?
    block sequence →  open (dash node?)* close
    block mapping  →  open (key node? (value node?)?)* close

A sequence that stands right under the key it belongs to is neither opened nor closed. Where
a node is left out there is the empty scalar.
-/
namespace Stencil.Yaml

inductive Node where
  | scalar (plain : Bool) (t : Text)
  | sequence (items : List Node)
  | mapping (entries : List (Node × Node))
  deriving Repr

namespace Node

/-- What stands where a node is left out. -/
def empty : Node := .scalar true []

abbrev Reading (α : Type) := List Token → Option (α × List Token)

/-- What `node` reads, unless one of the tokens that can follow it comes first. -/
def optional (node : Reading Node) (followers : List Token) : Reading Node := fun ts =>
  if ts.head?.any (followers.contains ·) then some (empty, ts) else node ts

/-- What `item` reads, again and again, with commas between and `close` at the end. At most
as many as there are tokens in `bound`. -/
def listed (item : Reading α) (close : Token) : (bound : List Token) → Reading (List α)
  | [], _ => none
  | _ :: bound, ts =>
    if ts.head? = some close then some ([], ts.tail)
    else do
      let (x, ts) ← item ts
      match ts with
      | .comma :: ts => do
        let (xs, ts) ← listed item close bound ts
        return (x :: xs, ts)
      | t :: ts => if t = close then return ([x], ts) else none
      | [] => none

def marked (mark : Token) (item : Reading α) : (bound : List Token) → Reading (List α)
  | [], ts => some ([], ts)
  | _ :: bound, ts =>
    match ts with
    | t :: rest =>
      if t = mark then do
        let (x, ts) ← item rest
        let (xs, ts) ← marked mark item bound ts
        return (x :: xs, ts)
      else some ([], ts)
    | [] => some ([], [])

def closed (reading : Reading α) : Reading α := fun ts => do
  match ← reading ts with
  | (x, .closeBlock :: ts) => return (x, ts)
  | _ => none

def valueOf (node : Reading Node) (followers : List Token) : Reading Node
  | .value :: ts => optional node followers ts
  | ts => some (empty, ts)

def entryWith (key node : Reading Node) (followers : List Token) :
    Reading (Node × Node) := fun ts => do
  let (k, ts) ← key ts
  let (v, ts) ← valueOf node followers ts
  return ((k, v), ts)

def flowEntry (node : Reading Node) : Reading (Node × Node)
  | .key :: ts =>
    entryWith (optional node [.value, .comma, .closeMapping]) node [.comma, .closeMapping] ts
  | ts => (node ts).map fun (k, ts) => ((k, empty), ts)

/-- A key in an item of a sequence. One that is left out takes the token after its mark along. -/
def flowItemKey (node : Reading Node) : Reading Node
  | .value :: ts => some (empty, ts)
  | .comma :: ts => some (empty, ts)
  | .closeSequence :: ts => some (empty, ts)
  | ts => node ts

/-- An item between brackets. A key with its value is a mapping of its own. -/
def flowItem (node : Reading Node) : Reading Node
  | .key :: ts => do
    let (entry, ts) ← entryWith (flowItemKey node) node [.comma, .closeSequence] ts
    return (.mapping [entry], ts)
  | ts => node ts

def blockEntry (node : Reading Node) : Reading (Node × Node) :=
  entryWith (optional node [.key, .value, .closeBlock]) node [.key, .value, .closeBlock]

inductive Context where
  | flow
  | block
  /-- The place of a key or of its value in a block mapping. -/
  | entry
  deriving DecidableEq, Repr

def readWith (node : Context → Reading Node) (context : Context) : Reading Node
  | .scalar plain t :: ts => some (.scalar plain t, ts)
  | .openSequence :: ts => do
    let (items, ts) ← listed (flowItem (node .flow)) .closeSequence ts ts
    return (.sequence items, ts)
  | .openMapping :: ts => do
    let (entries, ts) ← listed (flowEntry (node .flow)) .closeMapping ts ts
    return (.mapping entries, ts)
  | .openBlockSequence :: ts =>
    if context = .flow then none
    else do
      let item := optional (node .block) [.item, .closeBlock]
      let (items, ts) ← closed (marked .item item ts) ts
      return (.sequence items, ts)
  | .openBlockMapping :: ts =>
    if context = .flow then none
    else do
      let (entries, ts) ← closed (marked .key (blockEntry (node .entry)) ts) ts
      return (.mapping entries, ts)
  | .item :: ts =>
    if context = .entry then do
      let item := optional (node .block) [.item, .key, .value, .closeBlock]
      let (items, ts) ← marked .item item (.item :: ts) (.item :: ts)
      return (.sequence items, ts)
    else none
  | _ => none

/-- A node under `levels` levels that may still be opened. -/
def read : (levels : Nat) → Context → Reading Node
  | 0, _ => fun _ => none
  | levels + 1, context => readWith (read levels) context

def document (levels : Nat) : Reading Node
  | .documentStart :: ts =>
    match ts with
    | [] => some (empty, [])
    | .documentStart :: _ => none
    | .documentEnd :: _ => some (empty, ts)
    | _ => read levels .block ts
  | ts => read levels .block ts

/-- The node of a document that is given as tokens: the empty scalar if there are none. The
number of levels that may be opened is beyond what the tokens have room for. -/
def ofTokens? (ts : List Token) : Option Node :=
  if ts = [] then some empty
  else do
    let (node, ts) ← document (ts.length + 1) ts
    if ts.all (· == .documentEnd) then return node else none

end Node

end Stencil.Yaml

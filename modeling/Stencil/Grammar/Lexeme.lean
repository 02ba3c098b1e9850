import Stencil.Source.Fault

/-! # Lexemes

A reading looks at the cursor and either moves on with a result or reports a fault; it
never goes back. Here are the readings of single lexemes: names, quoted literals, fixed
tokens, and the repetition of a reading. A repetition is bounded by the characters left,
of which every round takes one at least.
-/
namespace Stencil

abbrev Reading (α : Type) := Cursor → Except Fault (α × Cursor)

namespace Grammar

def isQuote (c : Char) : Bool := c == '"' || c == '\''

def isNameStart (c : Char) : Bool := c.isAlpha || c == '_'

def isNameChar (c : Char) : Bool := c.isAlphanum || c == '_'

/-- The name that a text begins with: an ASCII letter or underscore, then also digits. -/
def nameAt : Text → Text
  | [] => []
  | c :: rest => if isNameStart c then c :: rest.takeWhile isNameChar else []

/-- What stands before the first `quote` that no backslash protects, without the protecting
backslashes, and the number of characters up to and with that quote. -/
def unquote? (quote : Char) : Text → Option (Text × Nat)
  | [] => none
  | c :: rest =>
    if c = quote then some ([], 1)
    else if c = '\\' then
      match rest with
      | [] => none
      | d :: rest => (unquote? quote rest).map fun (t, n) => (d :: t, n + 2)
    else (unquote? quote rest).map fun (t, n) => (c :: t, n + 1)

def atName (c : Cursor) : Bool := c.rest.head?.any isNameStart

def atQuote (c : Cursor) : Bool := c.rest.head?.any isQuote

def optionalName (c : Cursor) : Text × Cursor :=
  let name := nameAt c.rest
  (name, c.advance name.length)

def name (problem : Problem) : Reading Text := fun c =>
  let (name, after) := optionalName c
  if name = [] then .error (c.fault problem 1) else .ok (name, after)

/-- A quoted literal. An open one is a fault at its first quote. -/
def literal : Reading Text := fun c =>
  match c.rest with
  | [] => .error (c.fault (.noQuote []) 1)
  | quote :: rest =>
    if isQuote quote then
      match unquote? quote rest with
      | some (t, n) => .ok (t, c.advance (n + 1))
      | none => .error (c.fault .openLiteral 1)
    else .error (c.fault (.noQuote [quote]) 1)

def expect (role : Role) (token : Text) (c : Cursor) : Except Fault Cursor :=
  let found := c.peek token.length
  if found = token then .ok (c.advance token.length)
  else if found = [] then .error (c.fault (.missingToken role token) 1)
  else .error (c.fault (.wrongToken role token found) found.length)

/-- A keyword with the blanks after it, if it is there. Keywords are recognised by their
letters alone, whatever follows. -/
def keyword? (word : Text) (c : Cursor) : Option Cursor :=
  if c.startsWith word then some (c.advance word.length).skipBlank else none

def take (n : Nat) : Reading Text := fun c =>
  if c.rest.length < n then .error (c.fault .endOfText 1) else .ok (c.peek n, c.advance n)

def takeWhile (p : Char → Bool) (c : Cursor) : Text × Cursor := (c.rest.takeWhile p, c.skipWhile p)

/-- At most as many rounds of `item` as `bound` has characters. -/
def manyWithin (test : Cursor → Bool) (item : Reading α) : (bound : Text) → Reading (List α)
  | [], c => .ok ([], c)
  | _ :: bound, c =>
    if test c then do
      let (x, c) ← item c
      let (xs, c) ← manyWithin test item bound c
      return (x :: xs, c)
    else .ok ([], c)

def many (test : Cursor → Bool) (item : Reading α) : Reading (List α) := fun c =>
  manyWithin test item c.rest c

def tooDeep : Reading α := fun c => .error (c.fault .tooDeep 1)

end Grammar

end Stencil

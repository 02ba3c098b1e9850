import Stencil.Yaml.Lexeme

/-! # Tokens

A document as a sequence of tokens. Those that open and close a block collection are not
written in the text: content further right than what is open opens one, content further
left closes it. That something is a key shows only at the colon after it, on the same line
and not too far away; its token then goes in before it.
-/
namespace Stencil.Yaml

inductive Token where
  | documentStart
  | documentEnd
  | openBlockSequence
  | openBlockMapping
  | closeBlock
  /-- The dash before an item of a block sequence. -/
  | item
  | key
  | value
  | openSequence
  | closeSequence
  | openMapping
  | closeMapping
  | comma
  | scalar (plain : Bool) (t : Text)
  deriving DecidableEq, Repr

structure KeyPlace where
  /-- How many tokens come before it. -/
  before : Nat
  head : Head
  /-- Whether nothing but a key can stand there. -/
  required : Bool
  deriving DecidableEq, Repr

/-- A colon makes a key of what begins at most so many characters before it. -/
def keyReach : Nat := 1024

def KeyPlace.isStale (head : Head) (place : KeyPlace) : Bool :=
  decide (place.head.line < head.line) || decide (place.head.index + keyReach < head.index)

structure Lexer where
  head : Head
  /-- The tokens so far, the latest first. -/
  tokens : List Token := []
  count : Nat := 0
  /-- The columns of the block collections that are open, the innermost first. -/
  indents : List Nat := []
  /-- The last place where a key may have begun inside the innermost brackets. -/
  key : Option KeyPlace := none
  /-- The same for what is around the brackets, from the inside out. -/
  outer : List (Option KeyPlace) := []
  keyAllowed : Bool := true
  deriving DecidableEq, Repr

namespace Lexer

def inFlow (s : Lexer) : Bool := !s.outer.isEmpty

def rest (s : Lexer) : Text := s.head.rest

def column (s : Lexer) : Nat := s.head.column

def advance (n : Nat) (s : Lexer) : Lexer := { s with head := s.head.advance n }

def insertAt (before : Nat) (t : Token) (s : Lexer) : Lexer :=
  { s with tokens := s.tokens.insertIdx (s.count - before) t, count := s.count + 1 }

def emit (t : Token) (n : Nat) (s : Lexer) : Lexer :=
  { s with tokens := t :: s.tokens, count := s.count + 1 }.advance n

/-- Closes the block collections, from the innermost on, whose column satisfies `isOver`.
Inside brackets columns mean nothing. -/
def closeBlocks (isOver : Nat → Bool) (s : Lexer) : Lexer :=
  if s.inFlow then s
  else
    let indents := s.indents.dropWhile isOver
    let closed := s.indents.length - indents.length
    { s with
      indents, tokens := List.replicate closed .closeBlock ++ s.tokens, count := s.count + closed }

def openBlock (column before : Nat) (t : Token) (s : Lexer) : Lexer :=
  if s.inFlow || !s.indents.head?.all (· < column) then s
  else { s.insertAt before t with indents := column :: s.indents }

def dropKey? (s : Lexer) : Option Lexer :=
  if s.key.any (·.required) then none else some { s with key := none }

def markKey? (s : Lexer) : Option Lexer :=
  if s.keyAllowed then
    let required := !s.inFlow && s.indents.head? == some s.column
    s.dropKey?.map fun s => { s with key := some ⟨s.count, s.head, required⟩ }
  else some s

def dropStaleKeys? (s : Lexer) : Option Lexer :=
  let fresh (place : KeyPlace) : Bool := !place.isStale s.head
  if (s.key :: s.outer).any fun key => key.any fun place => place.required && !fresh place then none
  else some { s with key := s.key.filter fresh, outer := s.outer.map (·.filter fresh) }

def allowKey (allowed : Bool) (s : Lexer) : Lexer := { s with keyAllowed := allowed }

/-- How many characters there are up to the next token, and whether a key may begin there.
In block style a tab is no gap where a key may begin, and after a line break one may. -/
def gapLength (flow : Bool) : (keyAllowed comment : Bool) → Text → Nat × Bool
  | keyAllowed, _, [] => (0, keyAllowed)
  | keyAllowed, comment, c :: rest =>
    let more (keyAllowed comment : Bool) : Nat × Bool :=
      let (n, keyAllowed) := gapLength flow keyAllowed comment rest
      (n + 1, keyAllowed)
    if isBreak c then more (keyAllowed || !flow) false
    else if comment || c == ' ' || (c == '\t' && (flow || !keyAllowed)) then more keyAllowed comment
    else if c == '#' then more keyAllowed true
    else (0, keyAllowed)

/-- Goes on to the next token, which may be too late for a key and too far left for the
block collections that are open. -/
def settle? (s : Lexer) : Option Lexer := do
  let (n, keyAllowed) := gapLength s.inFlow s.keyAllowed false s.rest
  let s ← ((s.advance n).allowKey keyAllowed).dropStaleKeys?
  return s.closeBlocks (s.column < ·)

def document? (t : Token) (s : Lexer) : Option Lexer := do
  let s ← (s.closeBlocks fun _ => true).dropKey?
  return (s.allowKey false).emit t 3

def openBracket? (t : Token) (s : Lexer) : Option Lexer := do
  let s ← s.markKey?
  return { s with key := none, outer := s.key :: s.outer, keyAllowed := true }.emit t 1

def closeBracket? (t : Token) (s : Lexer) : Option Lexer := do
  let s ← s.dropKey?
  return { s with
    key := s.outer.head?.join, outer := s.outer.tail, keyAllowed := false }.emit t 1

def comma? (s : Lexer) : Option Lexer := do
  let s ← s.dropKey?
  return (s.allowKey true).emit .comma 1

def openHere? (t : Token) (s : Lexer) : Option Lexer :=
  if s.inFlow then some s
  else if s.keyAllowed then some (s.openBlock s.column s.count t)
  else none

def item? (s : Lexer) : Option Lexer := do
  let s ← s.openHere? .openBlockSequence
  let s ← s.dropKey?
  return (s.allowKey true).emit .item 1

def key? (s : Lexer) : Option Lexer := do
  let s ← s.openHere? .openBlockMapping
  let s ← s.dropKey?
  return (s.allowKey !s.inFlow).emit .key 1

/-- A colon makes a key of what began at the place of one. -/
def value? (s : Lexer) : Option Lexer :=
  match s.key with
  | some place =>
    let s := s.insertAt place.before .key
    let s := s.openBlock place.head.column place.before .openBlockMapping
    some ({ s with key := none, keyAllowed := false }.emit .value 1)
  | none => do
    let s ← s.openHere? .openBlockMapping
    return (s.allowKey !s.inFlow).emit .value 1

/-- A scalar. After a line break that was read with it a key may begin again. -/
def scalar? (plain : Bool) (lexeme : Option Lexeme) (s : Lexer) : Option Lexer := do
  let s ← s.markKey?
  let lexeme ← lexeme
  return (s.allowKey lexeme.endsLine).emit (.scalar plain lexeme.text) lexeme.length

def leastColumn (s : Lexer) : Nat :=
  match s.indents with
  | [] => 0
  | column :: _ => column + 1

def token? (c : Char) (rest : Text) (s : Lexer) : Option Lexer :=
  let lineStart := s.column == 0
  if lineStart && c == '%' then none
  else if lineStart && startsMarker '-' s.rest then s.document? .documentStart
  else if lineStart && startsMarker '.' s.rest then s.document? .documentEnd
  else if c = '[' then s.openBracket? .openSequence
  else if c = '\x7b' then s.openBracket? .openMapping
  else if c = ']' then s.closeBracket? .closeSequence
  else if c = '\x7d' then s.closeBracket? .closeMapping
  else if c = ',' then s.comma?
  else if c = '-' ∧ endsWord rest then s.item?
  else if c = '?' ∧ (s.inFlow ∨ endsWord rest) then s.key?
  else if c = ':' ∧ (s.inFlow ∨ endsWord rest) then s.value?
  else if c = '"' then s.scalar? false (Lexeme.doubleQuoted? rest)
  else if c = '\'' then s.scalar? false (Lexeme.singleQuoted? rest)
  else if startsPlain s.inFlow c rest then
    s.scalar? true (Lexeme.plain? s.inFlow s.leastColumn s.column s.rest)
  else none

/-- All tokens. Each takes a character at least, so there are no more than `bound` has. -/
def run (bound : Text) (s : Lexer) : Option (List Token) := do
  let s ← s.settle?
  match s.rest, bound with
  | [], _ => (s.closeBlocks fun _ => true).dropKey?.map (·.tokens.reverse)
  | _, [] => none
  | c :: rest, _ :: bound => do
    let s ← s.token? c rest
    run bound s

end Lexer

def Token.ofText? (t : Text) : Option (List Token) := Lexer.run t { head := { rest := t } }

end Stencil.Yaml

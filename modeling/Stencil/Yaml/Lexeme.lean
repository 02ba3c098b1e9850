import Stencil.Text.Digits
import Stencil.Yaml.Layout

/-! # Scalars as they are written

A scalar may go over several lines. The line breaks in it fold: a newline becomes a space
if no other break follows, else it goes, and the gaps around it go. Escaped characters take
no part in that.
-/
namespace Stencil.Yaml

/-- What stands between two pieces of a scalar. -/
inductive Gap where
  | spaces (t : Text)
  /-- A line break and the further ones. -/
  | breaks (first : Char) (more : Text)
  /-- An escaped line break and the further ones. -/
  | joint (more : Text)
  deriving DecidableEq, Repr

namespace Gap

def isEmpty : Gap → Bool
  | spaces t => t.isEmpty
  | _ => false

def hasBreak : Gap → Bool
  | spaces _ => false
  | _ => true

def text : Gap → Text
  | spaces t => t
  | breaks first more =>
    if first ≠ '\n' then first :: more
    else if more = [] then [' ']
    else more
  | joint more => more

def addSpace (c : Char) : Gap → Gap
  | spaces t => spaces (t ++ [c])
  | gap => gap

def addBreak (c : Char) : Gap → Gap
  | spaces _ => breaks c []
  | breaks first more => breaks first (more ++ [c])
  | joint more => joint (more ++ [c])

end Gap

structure Lexeme where
  text : Text
  /-- How many characters were read. -/
  length : Nat
  /-- Whether the last of them are gaps with a line break. -/
  endsLine : Bool := false
  deriving DecidableEq, Repr

inductive Glyph where
  | raw (c : Char)
  | escaped (c : Char)
  /-- A line break that a backslash takes away. -/
  | joint
  deriving DecidableEq, Repr

def foldFrom (gap : Gap) : List Glyph → Text
  | [] => gap.text
  | .raw c :: glyphs =>
    if isBreak c then foldFrom (gap.addBreak c) glyphs
    else if isGap c then foldFrom (gap.addSpace c) glyphs
    else gap.text ++ c :: foldFrom (.spaces []) glyphs
  | .escaped c :: glyphs => gap.text ++ c :: foldFrom (.spaces []) glyphs
  | .joint :: glyphs => gap.text ++ foldFrom (.joint []) glyphs

def fold (glyphs : List Glyph) : Text := foldFrom (.spaces []) glyphs

def escapes : List (Char × Char) :=
  [('0', '\x00'), ('a', '\x07'), ('b', '\x08'), ('t', '\t'), ('\t', '\t'), ('n', '\n'),
   ('v', '\x0b'), ('f', '\x0c'), ('r', '\r'), ('e', '\x1b'), (' ', ' '), ('"', '"'),
   ('\'', '\''), ('\\', '\\'), ('N', '\u0085'), ('_', '\u00a0'), ('L', '\u2028'),
   ('P', '\u2029')]

def codePoint? (digits : Text) : Option Char := do
  let n ← natInBase? 16 digits
  if n.isValidChar then return Char.ofNat n else none

/-- What follows a double quote up to the next one, and its length with that quote. -/
def doubleQuoted? : Text → Option (List Glyph × Nat)
  | [] => none
  | '"' :: _ => some ([], 1)
  | '\\' :: 'x' :: a :: b :: rest => do
    let c ← codePoint? [a, b]
    let (gs, n) ← doubleQuoted? rest
    return (.escaped c :: gs, n + 4)
  | '\\' :: 'u' :: a :: b :: c :: d :: rest => do
    let c ← codePoint? [a, b, c, d]
    let (gs, n) ← doubleQuoted? rest
    return (.escaped c :: gs, n + 6)
  | '\\' :: 'U' :: a :: b :: c :: d :: e :: f :: g :: h :: rest => do
    let c ← codePoint? [a, b, c, d, e, f, g, h]
    let (gs, n) ← doubleQuoted? rest
    return (.escaped c :: gs, n + 10)
  | '\\' :: c :: rest => do
    let glyph ← if isBreak c then some .joint else (escapes.lookup c).map .escaped
    let (gs, n) ← doubleQuoted? rest
    return (glyph :: gs, n + 2)
  | c :: rest => (doubleQuoted? rest).map fun (gs, n) => (.raw c :: gs, n + 1)

/-- What follows a single quote up to the next one that is not doubled, and its length with
that quote. -/
def singleQuoted? : Text → Option (List Glyph × Nat)
  | [] => none
  | '\'' :: '\'' :: rest => (singleQuoted? rest).map fun (gs, n) => (.escaped '\'' :: gs, n + 2)
  | '\'' :: _ => some ([], 1)
  | c :: rest => (singleQuoted? rest).map fun (gs, n) => (.raw c :: gs, n + 1)

def holdsBoundary (span : Text) : Bool := (span.splitOnP isBreak).tail.any startsBoundary

/-- The scalar that a quote opens, from what follows the quote. Its length counts both quotes. -/
def quoted? (following : Option (List Glyph × Nat)) (rest : Text) : Option Lexeme := do
  let (glyphs, n) ← following
  if holdsBoundary (rest.take n) then none
  return { text := fold glyphs, length := n + 1 }

def Lexeme.doubleQuoted? (rest : Text) : Option Lexeme := quoted? (Yaml.doubleQuoted? rest) rest

def Lexeme.singleQuoted? (rest : Text) : Option Lexeme := quoted? (Yaml.singleQuoted? rest) rest

def isFlowMark (c : Char) : Bool := c ∈ [',', '[', ']', '\x7b', '\x7d']

def isReserved (c : Char) : Bool :=
  isFlowMark c || isGap c || isBreak c ||
    c ∈ ['#', '&', '*', '!', '|', '>', '\'', '"', '%', '@', '\x60']

/-- Whether a plain scalar begins with `c`, before `rest`. A dash, a question mark and a
colon need more after them. -/
def startsPlain (flow : Bool) (c : Char) (rest : Text) : Bool :=
  if c = '-' then !endsWord rest
  else if c = '?' ∨ c = ':' then !flow && !endsWord rest
  else !isReserved c

def stopsPlain (flow : Bool) (c : Char) (rest : Text) : Bool :=
  (c == ':' && endsWord rest) || (flow && (isFlowMark c || c == ':' || c == '?'))

/-- Whether a plain scalar that must not go below the column `least` ends before a word that
begins with `c` at `column`. -/
def endsBefore (flow : Bool) (least column : Nat) (c : Char) (rest : Text) : Bool :=
  c == '#' || (!flow && decide (column < least)) || (column == 0 && startsBoundary (c :: rest))

/-- The rest of a plain scalar, after a gap that is still open. In brackets a colon within a
word is refused, and so is a tab that indents too little. -/
def plainFrom (flow : Bool) (least : Nat) (gap : Gap) (column : Nat) : Text → Option Lexeme
  | [] => some ⟨[], 0, gap.hasBreak⟩
  | c :: rest =>
    if isGap c then
      if c == '\t' && gap.hasBreak && decide (column < least) then none
      else
        (plainFrom flow least (gap.addSpace c) (column + 1) rest).map fun l =>
          { l with length := l.length + 1 }
    else if isBreak c then
      (plainFrom flow least (gap.addBreak c) 0 rest).map fun l =>
        { l with length := l.length + 1 }
    else if !gap.isEmpty && endsBefore flow least column c rest then some ⟨[], 0, gap.hasBreak⟩
    else if flow && c == ':' && !endsWord rest then none
    else if stopsPlain flow c rest then some ⟨[], 0, gap.hasBreak⟩
    else
      (plainFrom flow least (.spaces []) (column + 1) rest).map fun l =>
        { l with text := gap.text ++ c :: l.text, length := l.length + 1 }

def Lexeme.plain? (flow : Bool) (least column : Nat) (t : Text) : Option Lexeme :=
  plainFrom flow least (.spaces []) column t

end Stencil.Yaml

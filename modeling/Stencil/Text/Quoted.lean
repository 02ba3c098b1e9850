import Stencil.Text.Digits
import Stencil.Text.Unseen

/-! # Quoted text

Two written forms of a text: the JSON string, and the form that messages show, which
prefers single quotes and escapes what cannot be seen.
-/
namespace Stencil

/-- One character inside a JSON string: the two delimiters and the controls are escaped. -/
def jsonChar (c : Char) : Text :=
  if c = '"' then ['\\', '"']
  else if c = '\\' then ['\\', '\\']
  else if c = '\n' then ['\\', 'n']
  else if c = '\r' then ['\\', 'r']
  else if c = '\t' then ['\\', 't']
  else if c.toNat = 0x08 then ['\\', 'b']
  else if c.toNat = 0x0c then ['\\', 'f']
  else if c.toNat < 0x20 then '\\' :: 'u' :: hexText 4 c.toNat
  else [c]

def jsonString (t : Text) : Text := '"' :: (t.flatMap jsonChar ++ ['"'])

/-- The shortest numeric escape that holds the code point. -/
def codeEscape (code : Nat) : Text :=
  if code < 0x100 then '\\' :: 'x' :: hexText 2 code
  else if code < 0x10000 then '\\' :: 'u' :: hexText 4 code
  else '\\' :: 'U' :: hexText 8 code

def shownChar (quote c : Char) : Text :=
  if c = quote ∨ c = '\\' then ['\\', c]
  else if c = '\n' then ['\\', 'n']
  else if c = '\r' then ['\\', 'r']
  else if c = '\t' then ['\\', 't']
  else if isUnseen c then codeEscape c.toNat
  else [c]

/-- Single quotes, unless only they occur in the text. -/
def shownQuote (t : Text) : Char := if '\'' ∈ t ∧ '"' ∉ t then '"' else '\''

def shownText (t : Text) : Text :=
  let quote := shownQuote t
  quote :: (t.flatMap (shownChar quote) ++ [quote])

def shownBytes (bytes : List UInt8) : Text :=
  let quote := shownQuote (bytes.map fun b => Char.ofNat b.toNat)
  let shown (b : UInt8) : Text :=
    let c := Char.ofNat b.toNat
    if b < 0x80 then shownChar quote c else codeEscape b.toNat
  'b' :: quote :: (bytes.flatMap shown ++ [quote])

end Stencil

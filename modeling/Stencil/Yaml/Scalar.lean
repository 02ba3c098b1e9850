import Stencil.Number.Numeral
import Stencil.Value.Basic

/-! # Plain scalars

What an unquoted scalar stands for: null, a truth value, a number, or the text itself. Only
the words listed here are special; `yes` and `off` are texts. What looks like a numeral may
still be none.
-/
namespace Stencil.Yaml

inductive Flaw where
  | malformed
  | emptyNumeral
  | longNumeral
  /-- A list that stands as a key holds a list or a mapping. -/
  | nestedKey
  deriving DecidableEq, Repr

def nullWords : List Text := ["", "~", "null", "Null", "NULL"].map String.toList

def trueWords : List Text := ["true", "True", "TRUE"].map String.toList

def falseWords : List Text := ["false", "False", "FALSE"].map String.toList

def infinityWords : List Text := [".inf", ".Inf", ".INF"].map String.toList

def nanWords : List Text := [".nan", ".NaN", ".NAN"].map String.toList

/-- The mark of a default value. As a key it is a text. -/
def defaultMark : Text := ['=']

/-- The mark of entries that are taken over from elsewhere. -/
def mergeMark : Text := ['<', '<']

def withoutUnderscores (t : Text) : Text := t.filter (· ≠ '_')

/-- The number of what looks like a numeral in the given base: digits and underscores. Only
decimal numerals can be too long. -/
def numeralIn? (base : Nat) (t : Text) : Option (Except Flaw Nat) :=
  if t ≠ [] ∧ t.all (fun c => c == '_' || (digitIn? base c).isSome) then
    let digits := withoutUnderscores t
    if base = 10 ∧ numeralLimit < digits.length then some (.error .longNumeral)
    else
      match natInBase? base digits with
      | some n => some (.ok n)
      | none => some (.error .emptyNumeral)
  else none

def naturalOf? (t : Text) : Option (Except Flaw Nat) :=
  match t with
  | '0' :: 'x' :: digits => numeralIn? 16 digits
  | '0' :: 'o' :: digits => numeralIn? 8 digits
  | '0' :: 'b' :: digits => numeralIn? 2 digits
  | digits => numeralIn? 10 digits

/-- The whole number that a scalar denotes. Underscores count for nothing, but none comes
first. -/
def wholeOf? (t : Text) : Option (Except Flaw Int) :=
  if t.head? = some '_' then none
  else
    let (negative, body) := splitSign t
    (naturalOf? body).map fun r => r.map fun n => if negative then -(n : Int) else n

/-- Whether `t` is an exponent with its mark, which some numerals want signed. -/
def isExponent (signed : Bool) : Text → Bool
  | e :: rest =>
    let digits := (splitSign rest).2
    (e == 'e' || e == 'E') && !digits.isEmpty && digits.all Char.isDigit &&
      (!signed || digits.length < rest.length)
  | [] => false

def isNumeralChar (c : Char) : Bool := c.isDigit || c == '_'

def isDecimal (t : Text) : Bool :=
  let whole := t.takeWhile isNumeralChar
  match t.dropWhile isNumeralChar with
  | '.' :: rest =>
    let part := rest.takeWhile isNumeralChar
    let tail := rest.dropWhile isNumeralChar
    if whole.isEmpty then !part.isEmpty && (tail.isEmpty || isExponent true tail)
    else whole.head?.any Char.isDigit && (tail.isEmpty || isExponent false tail)
  | tail => whole.head?.any Char.isDigit && isExponent false tail

def doubleOf? (t : Text) : Option (Except Flaw Double) :=
  let (negative, body) := splitSign t
  if infinityWords.contains body then some (.ok (.infinite negative))
  else if nanWords.contains t then some (.ok (.nan 0))
  else if isDecimal body then
    match Double.ofText? (withoutUnderscores t) with
    | some x => some (.ok x)
    | none => some (.error .emptyNumeral)
  else none

def plainValue (t : Text) : Except Flaw Value :=
  if nullWords.contains t then .ok .null
  else if trueWords.contains t then .ok (.bool true)
  else if falseWords.contains t then .ok (.bool false)
  else if t == defaultMark || t == mergeMark then .error .malformed
  else
    match doubleOf? t, wholeOf? t with
    | some x, _ => x.map .float
    | none, some i => i.map .int
    | none, none => .ok (.text t)

end Stencil.Yaml

import Stencil.Number.Double
import Stencil.Text.Digits

/-! # Numerals

Reads decimal numerals with an optional sign, fraction and exponent, in the digits of any
script, with single underscores between digits; also the words for infinity and NaN. Whole
numbers are read without fraction and exponent.
-/
namespace Stencil

/-- Removes the underscores of a numeral, each of which has to stand between two digits. -/
def withoutUnderscores? : (previousIsDigit : Bool) → Text → Option Text
  | _, [] => some []
  | afterDigit, '_' :: rest =>
    match rest with
    | c :: _ => if afterDigit && c.isDigit then withoutUnderscores? false rest else none
    | [] => none
  | _, c :: rest => (withoutUnderscores? c.isDigit rest).map (c :: ·)

def splitSign : Text → Bool × Text
  | '-' :: rest => (true, rest)
  | '+' :: rest => (false, rest)
  | t => (false, t)

def exponentOf? : Text → Option Int
  | [] => some 0
  | e :: rest =>
    if e = 'e' ∨ e = 'E' then
      let (negative, digits) := splitSign rest
      (natOfText? digits).map fun n => if negative then -(n : Int) else n
    else none

/-- The double nearest to `digits * 10 ^ exponent`. Far beyond the range of doubles the
answer is known without computing the power. -/
def Double.ofDecimal (negative : Bool) (digits : Nat) (exponent : Int) : Double :=
  let size : Int := (natText digits).length + exponent
  if digits = 0 then .ofFraction negative 0 1
  else if 310 < size then .infinite negative
  else if size < -324 then .ofFraction negative 0 1
  else .ofFraction negative (digits * Nat.pow 10 exponent.toNat) (Nat.pow 10 (-exponent).toNat)

def Double.ofUnsigned? (negative : Bool) (t : Text) : Option Double :=
  let whole := t.takeWhile Char.isDigit
  let rest := t.dropWhile Char.isDigit
  let (part, tail) :=
    match rest with
    | '.' :: rest => (rest.takeWhile Char.isDigit, rest.dropWhile Char.isDigit)
    | rest => ([], rest)
  match natOfText? (whole ++ part), exponentOf? tail with
  | some digits, some exponent => some (.ofDecimal negative digits (exponent - part.length))
  | _, _ => none

def Double.ofText? (t : Text) : Option Double := do
  let plain ← withoutUnderscores? false (t.trim.map plainDigit)
  let (negative, body) := splitSign plain
  let word := body.map Char.toLower
  if word = "inf".toList ∨ word = "infinity".toList then return .infinite negative
  else if word = "nan".toList then return .nan 0
  else Double.ofUnsigned? negative body

/-- The controls that separate files, groups, records and units. -/
def isSeparatorControl (c : Char) : Bool := inRanges [(0x1c, 0x1f)] c

/-- The whole number that a numeral denotes. Blanks may stand around it, separator controls
not. -/
def intOfText? (t : Text) : Option Int := do
  if t.any isSeparatorControl then none
  let plain ← withoutUnderscores? false (t.trim.map plainDigit)
  let (negative, digits) := splitSign plain
  let n ← natOfText? digits
  if numeralLimit < digits.length then none
  return if negative then -(n : Int) else n

end Stencil

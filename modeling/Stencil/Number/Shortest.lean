import Stencil.Number.Double
import Stencil.Text.Digits

/-! # Shortest decimal text of a double

The digits are the fewest that read back as the same double, and among those the nearest
to its value. For each count of digits only the two neighbours of the value on that
decimal grid have to be tried.
-/
namespace Stencil

/-- `digits * 10 ^ scale`. -/
structure DecimalForm where
  digits : Nat
  scale : Int
  deriving DecidableEq, Repr

/-- A positive interval: everything from `low / den` to `high / den`. -/
structure ReadBack where
  low : Nat
  high : Nat
  den : Nat
  closed : Bool

namespace ReadBack

/-- The numbers that round to the double `significand * 2 ^ exponent`. The gap below a
power of two is half as wide, and the ends belong to an even significand. -/
def ofParts (significand : Nat) (exponent : Int) : ReadBack :=
  let narrow := significand = Nat.pow 2 52 ∧ Double.leastExponent < exponent
  let scale := shiftUp 1 (exponent - 2)
  { low := (if narrow then 4 * significand - 1 else 4 * significand - 2) * scale
    high := (4 * significand + 2) * scale
    den := shiftUp 1 (2 - exponent)
    closed := significand % 2 = 0 }

def contains (interval : ReadBack) (d : DecimalForm) : Bool :=
  let value := d.digits * Nat.pow 10 d.scale.toNat * interval.den
  let unit := Nat.pow 10 (-d.scale).toNat
  if interval.closed then interval.low * unit ≤ value && value ≤ interval.high * unit
  else interval.low * unit < value && value < interval.high * unit

end ReadBack

def floorLogTen (num den : Nat) : Int :=
  if den ≤ num then ((natText (num / den)).length : Int) - 1
  else
    let quotient := den / num
    let length := (natText quotient).length
    if quotient = Nat.pow 10 (length - 1) ∧ den % num = 0 then 1 - (length : Int) else -(length : Int)

/-- The neighbour of `num / den` on the grid of multiples of `10 ^ scale` that reads back,
the nearer one if both do, and the even one of two equally near. -/
def nearestReadBack? (interval : ReadBack) (num den : Nat) (scale : Int) : Option DecimalForm :=
  let num := num * Nat.pow 10 (-scale).toNat
  let den := den * Nat.pow 10 scale.toNat
  let below : DecimalForm := ⟨num / den, scale⟩
  let above : DecimalForm := ⟨num / den + 1, scale⟩
  let rest := num % den
  match interval.contains below, interval.contains above with
  | true, true =>
    some (if 2 * rest < den ∨ (2 * rest = den ∧ below.digits % 2 = 0) then below else above)
  | true, false => some below
  | false, true => some above
  | false, false => none

/-- The shortest decimal of `significand * 2 ^ exponent`, for a positive significand.
Seventeen digits always suffice. -/
def shortestDecimal (significand : Nat) (exponent : Int) : DecimalForm :=
  let num := shiftUp significand exponent
  let den := shiftUp 1 (-exponent)
  let interval := ReadBack.ofParts significand exponent
  let top := floorLogTen num den
  let form? := (List.range 17).findSome? fun (extra : Nat) =>
    nearestReadBack? interval num den (top - extra)
  form?.getD ⟨num / den, 0⟩

structure DecimalLayout where
  /-- The least power of ten of the first digit that is written without an exponent. -/
  positionalFrom : Int
  /-- The first power of ten of the first digit that needs an exponent. -/
  positionalBelow : Int
  /-- The least number of digits in an exponent. -/
  exponentWidth : Nat

/-- Plain notation from `0.0001` up to below `1e+16`, with `.0` after a whole number, and
an exponent of at least two digits elsewhere. -/
def doubleLayout : DecimalLayout := ⟨-4, 16, 2⟩

def significantDigits (n : Nat) : Text :=
  match ((natText n).reverse.dropWhile (· = '0')).reverse with
  | [] => ['0']
  | digits => digits

def DecimalLayout.write (layout : DecimalLayout) (d : DecimalForm) : Text :=
  let digits := significantDigits d.digits
  let top : Int := (natText d.digits).length + d.scale - 1
  if layout.positionalFrom ≤ top ∧ top < layout.positionalBelow then
    if top < 0 then '0' :: '.' :: (List.replicate (-top - 1).toNat '0' ++ digits)
    else
      let whole := (digits.take (top.toNat + 1)).rightpad (top.toNat + 1) '0'
      let part := digits.drop (top.toNat + 1)
      whole ++ '.' :: (if part = [] then ['0'] else part)
  else
    let mantissa := digits.take 1 ++ (if digits.length = 1 then [] else '.' :: digits.drop 1)
    let sign := if top < 0 then '-' else '+'
    mantissa ++ 'e' :: sign :: (natText top.natAbs).leftpad layout.exponentWidth '0'

def signText (negative : Bool) : Text := if negative then ['-'] else []

def Double.textWith (infinity nan : Text) : Double → Text
  | finite negative 0 _ => signText negative ++ ['0', '.', '0']
  | finite negative significand exponent =>
    signText negative ++ doubleLayout.write (shortestDecimal significand exponent)
  | infinite negative => signText negative ++ infinity
  | .nan _ => nan

def Double.text : Double → Text := textWith ['i', 'n', 'f'] ['n', 'a', 'n']

end Stencil

import Stencil.Number.Numeral
import Stencil.Number.Shortest

/-! # Numbers

A number is a whole number of any size or a double. Comparisons between the two kinds are
exact, so a double equals a whole number only if it is that number.
-/
namespace Stencil

inductive Number where
  | whole (i : Int)
  | real (x : Double)
  deriving DecidableEq, Repr

namespace Number

/-- A double that is a whole number counts as that whole number. -/
def ofDouble (x : Double) : Number :=
  match x.toInt? with
  | some i => .whole i
  | none => .real x

def toRatio? : Number → Option Ratio
  | whole i => some (.ofInt i)
  | real x => x.toRatio?

def equal : Number → Number → Bool
  | whole i, whole j => decide (i = j)
  | real (.infinite m), real (.infinite n) => m == n
  | a, b =>
    match a.toRatio?, b.toRatio? with
    | some p, some q => p.equal q
    | _, _ => false

def below : Number → Number → Bool
  | whole i, whole j => decide (i < j)
  | a, b =>
    match a.toRatio?, b.toRatio? with
    | some p, some q => p.less q
    | _, _ => false

/-- The next number: exact for a whole number, rounded for a double. -/
def succ : Number → Number
  | whole i => whole (i + 1)
  | real x => real (x.addInt 1)

/-- Decimal text, without a fraction for a double that is a whole number. -/
def text : Number → Text
  | whole i => intText i
  | real x =>
    match x.toInt? with
    | some i => intText i
    | none => x.text

/-- The finite number that a text denotes. Nothing but blanks is zero. -/
def ofText? (t : Text) : Option Number :=
  if t.trim = [] then some (.whole 0)
  else
    match Double.ofText? t with
    | some (.infinite _) => none
    | some (.nan _) => none
    | some x => some (.ofDouble x)
    | none => none

/-- A bound on how many numbers `first`, `first + 1`, … lie below `last`, with room for
the rounding of doubles. -/
def stepsBetween (first last : Number) : Nat :=
  match first, last with
  | whole i, whole j => (j - i).toNat
  | a, b =>
    match a.toRatio?, b.toRatio? with
    | some p, some q => (q.num / q.den + 1 - p.num / p.den).toNat + 2
    | _, _ => 0

end Number

end Stencil

import Stencil.Text.Basic

/-! # Binary64 numbers

A finite double is a sign, a significand below `2 ^ 53` and a power of two. Arithmetic is
exact arithmetic on ratios followed by one rounding, `Double.ofRatio`, to the nearest
double, ties to the even significand.
-/
namespace Stencil

/-- A binary64 number. Every NaN carries a mark of where it came from: a NaN equals no
number, but a list that holds one still equals itself. -/
inductive Double where
  | finite (negative : Bool) (significand : Nat) (exponent : Int)
  | infinite (negative : Bool)
  | nan (mark : Nat)
  deriving DecidableEq, Repr

structure Ratio where
  num : Int
  den : Nat
  deriving DecidableEq, Repr

namespace Ratio

def ofInt (i : Int) : Ratio := ⟨i, 1⟩

def add (a b : Ratio) : Ratio := ⟨a.num * b.den + b.num * a.den, a.den * b.den⟩

def less (a b : Ratio) : Bool := decide (a.num * b.den < b.num * a.den)

def equal (a b : Ratio) : Bool := decide (a.num * b.den = b.num * a.den)

/-- `magnitude * 2 ^ exponent` with the given sign. -/
def scaled (negative : Bool) (magnitude : Nat) (exponent : Int) : Ratio :=
  let num : Int := if negative then -magnitude else magnitude
  match exponent with
  | .ofNat e => ⟨num * Nat.pow 2 e, 1⟩
  | .negSucc e => ⟨num, Nat.pow 2 (e + 1)⟩

end Ratio

/-- The quotient rounded to the nearest whole number, ties to even. -/
def roundDiv (num den : Nat) : Nat :=
  let quotient := num / den
  let rest := num % den
  if den < 2 * rest ∨ (2 * rest = den ∧ quotient % 2 = 1) then quotient + 1 else quotient

def shiftUp (n : Nat) (e : Int) : Nat := n * Nat.pow 2 e.toNat

/-- The exponent of the greatest power of two that is at most `num / den`. -/
def floorLog (num den : Nat) : Int :=
  let guess : Int := (num.log2 : Int) - den.log2
  if shiftUp den guess ≤ shiftUp num (-guess) then guess else guess - 1

namespace Double

def leastExponent : Int := -1074

def greatestExponent : Int := 971

def zero : Double := .finite false 0 leastExponent

/-- The double nearest to `num / den` with the given sign. -/
def ofFraction (negative : Bool) (num den : Nat) : Double :=
  if num = 0 then .finite negative 0 leastExponent
  else
    let exponent := max (floorLog num den - 52) leastExponent
    let rounded := roundDiv (shiftUp num (-exponent)) (shiftUp den exponent)
    let carried := rounded = Nat.pow 2 53
    let significand := if carried then Nat.pow 2 52 else rounded
    let exponent := if carried then exponent + 1 else exponent
    if greatestExponent < exponent then .infinite negative
    else .finite negative significand exponent

def ofRatio (r : Ratio) : Double := ofFraction (r.num < 0) r.num.natAbs r.den

def toRatio? : Double → Option Ratio
  | finite negative significand exponent => some (.scaled negative significand exponent)
  | infinite _ => none
  | nan _ => none

def toInt? (x : Double) : Option Int :=
  match x.toRatio? with
  | some r => if r.num % r.den = 0 then some (r.num / r.den) else none
  | none => none

/-- The double nearest to `x + i`. An infinity or NaN stays what it is. -/
def addInt (x : Double) (i : Int) : Double :=
  match x.toRatio? with
  | some r => ofRatio (r.add (.ofInt i))
  | none => x

end Double

end Stencil

import Stencil.Grammar.Expression
import Stencil.Tree.Condition

/-! # Reading conditions

    condition  →  ("(" condition ")" | leaf) (("or" | "and") condition)?
    leaf       →  argument "not"? ("eq" argument | "like" argument | "in" array)?

The right side of an operator is a whole condition, so that chains group to the right.
Every condition opens a level: the outermost one, the inside of brackets and the right
side of an operator.
-/
namespace Stencil.Grammar

def leafWith (argument : Reading Arg) (array : Reading (List Arg)) : Reading Condition := fun c => do
  let (left, c) ← argument c
  let c := c.skipBlank
  let after := keyword? "not".toList c
  let negated := after.isSome
  let c := after.getD c
  if let some c := keyword? "eq".toList c then do
    let (right, c) ← argument c
    return (.compare .eq negated left right, c)
  else if let some c := keyword? "like".toList c then do
    let (right, c) ← argument c
    return (.compare .like negated left right, c)
  else if let some c := keyword? "in".toList c then do
    let (items, c) ← array c
    return (.among negated left items, c)
  else if negated then .error (c.fault .loneNot 1)
  else return (.holds left, c)

def operandWith (inner : Reading Condition) (argument : Reading Arg) (array : Reading (List Arg)) :
    Reading Condition := fun c =>
  if c.rest.head? = some '(' then do
    let (condition, c) ← inner (c.advance 1).skipBlank
    let c ← expect .symbol [')'] c.skipBlank
    return (.brackets condition, c)
  else if atQuote c || atName c then leafWith argument array c
  else .error (c.fault .noCondition 1)

def conditionWith (inner : Reading Condition) (argument : Reading Arg) (array : Reading (List Arg)) :
    Reading Condition := fun c => do
  let (left, c) ← operandWith inner argument array c.skipBlank
  let c := c.skipBlank
  if let some c := keyword? "or".toList c then do
    let (right, c) ← inner c
    return (.join .or left right, c)
  else if let some c := keyword? "and".toList c then do
    let (right, c) ← inner c
    return (.join .and left right, c)
  else return (left, c)

/-- A condition under `levels` levels that may still be opened, one of them its own. -/
def condition : (levels : Nat) → Reading Condition
  | 0 => tooDeep
  | levels + 1 => conditionWith (condition levels) (argument levels) (array levels)

end Stencil.Grammar

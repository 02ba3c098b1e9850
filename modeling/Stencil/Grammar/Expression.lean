import Stencil.Grammar.Lexeme
import Stencil.Tree.Expression

/-! # Reading arguments

    argument  →  (literal | variable) ("->" call)*
    variable  →  NAME ("." NAME | "[" argument "]")*
    call      →  NAME "(" param* ")"
    param     →  NAME ("=" argument)?
    array     →  "[" argument ("," argument)* "]"

An index, the value of a parameter and an item of an array each open a level. A reading
takes the reading of what stands one level deeper, so the number of levels left is what
the recursion runs on.
-/
namespace Stencil.Grammar

variable (inner : Reading Arg)

/-- Two dots separate the bounds of a range and begin no step. -/
def atStep (c : Cursor) : Bool :=
  match c.rest with
  | '.' :: '.' :: _ => false
  | '.' :: _ => true
  | '[' :: _ => true
  | _ => false

def step : Reading Step := fun c =>
  if c.rest.head? = some '.' then do
    let (field, c) ← name .noName (c.advance 1)
    return (.field field, c)
  else do
    let (arg, c) ← inner (c.advance 1).skipBlank
    let c ← expect .symbol [']'] c.skipBlank
    return (.index arg, c)

def variablePath : Reading Operand := fun c => do
  let (root, c) ← name .noName c
  let (steps, c) ← many atStep (step inner) c
  return (.variable root steps, c)

def operand : Reading Operand := fun c =>
  if atQuote c then do
    let (t, c) ← literal c
    return (.literal t, c)
  else if atName c then variablePath inner c
  else
    match c.rest with
    | [] => .error (c.fault .missingArgument 1)
    | found :: _ => .error (c.fault (.wrongArgument found) 1)

def param : Reading Param := fun c => do
  let (key, c) ← name .noParam c
  let c := c.skipBlank
  if c.rest.head? = some '=' then do
    let (value, c) ← inner (c.advance 1).skipBlank
    return (.mk key (some value), c)
  else return (.mk key none, c)

def spacedParam : Reading Param := fun c => do
  let (param, c) ← param inner c
  return (param, c.skipBlank)

def call : Reading Call := fun start => do
  let (function, c) ← name .noFunction start
  let c ← expect .symbol ['('] c.skipBlank
  let (params, c) ← many atName (spacedParam inner) c.skipBlank
  let c ← expect .symbol [')'] c
  return (.mk function params start.offset, c)

def atArrow (c : Cursor) : Bool := c.startsWith ['-', '>']

def pipedCall : Reading Call := fun c => do
  let (call, c) ← call inner (c.advance 2).skipBlank
  return (call, c.skipBlank)

def argumentWith : Reading Arg := fun c => do
  let (operand, c) ← operand inner c.skipBlank
  let (calls, c) ← many atArrow (pipedCall inner) c.skipBlank
  return (.mk operand calls, c)

def arrayItem : Reading Arg := fun c => do
  let (arg, c) ← inner c.skipBlank
  return (arg, c.skipBlank)

def atComma (c : Cursor) : Bool := c.startsWith [',']

def nextItem : Reading Arg := fun c => arrayItem inner (c.advance 1)

/-- An array whose items are read by `inner`. There is one at least. -/
def arrayWith : Reading (List Arg) := fun c => do
  let c ← expect .symbol ['['] c
  let (item, c) ← arrayItem inner c
  let (items, c) ← many atComma (nextItem inner) c
  let c ← expect .symbol [']'] c
  return (item :: items, c)

/-- An argument under `levels` levels that may still be opened. -/
def argument : (levels : Nat) → Reading Arg
  | 0 => argumentWith tooDeep
  | levels + 1 => argumentWith (argument levels)

def nestedArgument : (levels : Nat) → Reading Arg
  | 0 => tooDeep
  | levels + 1 => argument levels

def array (levels : Nat) : Reading (List Arg) := arrayWith (nestedArgument levels)

def variableAt (levels : Nat) : Reading Operand := variablePath (nestedArgument levels)

def paramAt (levels : Nat) : Reading Param := param (nestedArgument levels)

def callAt (levels : Nat) : Reading Call := call (nestedArgument levels)

theorem argument_eq (levels : Nat) : argument levels = argumentWith (nestedArgument levels) := by
  cases levels <;> rfl

end Stencil.Grammar

import Stencil.Text.Basic

/-! # Arguments

An argument produces a value: an operand, then a pipeline of calls. A variable is a root
name and the steps of a path, each a field name or an index given by another argument.
-/
namespace Stencil

mutual

/-- An operand and the calls its value is passed through, from the left. -/
inductive Arg where
  | mk (operand : Operand) (calls : List Call)

inductive Operand where
  | literal (t : Text)
  | variable (root : Text) (steps : List Step)

inductive Step where
  | field (name : Text)
  | index (arg : Arg)

/-- A call of a method, with the offset of its name in the source. -/
inductive Call where
  | mk (function : Text) (params : List Param) (offset : Nat)

/-- A parameter. One without a value stands for the empty text. -/
inductive Param where
  | mk (key : Text) (value : Option Arg)

end

namespace Arg

def operand : Arg → Operand
  | mk operand _ => operand

def calls : Arg → List Call
  | mk _ calls => calls

def ofText (t : Text) : Arg := mk (.literal t) []

end Arg

namespace Call

def function : Call → Text
  | mk function _ _ => function

def params : Call → List Param
  | mk _ params _ => params

def offset : Call → Nat
  | mk _ _ offset => offset

end Call

namespace Param

def key : Param → Text
  | mk key _ => key

def value : Param → Option Arg
  | mk _ value => value

end Param

end Stencil

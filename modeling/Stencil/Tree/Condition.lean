import Stencil.Tree.Expression

/-! # Conditions

A condition is an argument that has to print as something, a comparison of two arguments,
membership in an array, a group in brackets, or two conditions joined by and / or.
-/
namespace Stencil

inductive Connective where
  | and
  | or
  deriving DecidableEq, Repr

inductive Comparison where
  | eq
  | like
  deriving DecidableEq, Repr

inductive Condition where
  | holds (arg : Arg)
  | brackets (inner : Condition)
  | join (connective : Connective) (left right : Condition)
  | compare (comparison : Comparison) (negated : Bool) (left right : Arg)
  | among (negated : Bool) (arg : Arg) (items : List Arg)

end Stencil

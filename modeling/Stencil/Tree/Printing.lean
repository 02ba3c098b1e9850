import Stencil.Tree.Condition
import Stencil.Value.Display

/-! # Source text of expressions

Each argument and condition prints in one canonical way: literals in double quotes, one
space around operators and arrows, a comma and a space between array items.
-/
namespace Stencil

def escapedChar (c : Char) : Text := if c = '\\' ∨ c = '"' then ['\\', c] else [c]

def literalText (t : Text) : Text := '"' :: (t.flatMap escapedChar ++ ['"'])

mutual

def Arg.print : Arg → Text
  | .mk operand calls => operand.print ++ callsPrint calls

def Operand.print : Operand → Text
  | .literal t => literalText t
  | .variable root steps => root ++ stepsPrint steps

def stepsPrint : List Step → Text
  | [] => []
  | step :: steps => step.print ++ stepsPrint steps

def Step.print : Step → Text
  | .field name => '.' :: name
  | .index arg => '[' :: (arg.print ++ [']'])

def callsPrint : List Call → Text
  | [] => []
  | call :: calls => " -> ".toList ++ call.print ++ callsPrint calls

def Call.print : Call → Text
  | .mk function params _ => function ++ '(' :: (Text.join [' '] (paramsPrint params) ++ [')'])

def paramsPrint : List Param → List Text
  | [] => []
  | param :: params => param.print :: paramsPrint params

def Param.print : Param → Text
  | .mk key none => key
  | .mk key (some value) => key ++ '=' :: value.print

end

def arrayPrint (items : List Arg) : Text :=
  '[' :: (Text.join [',', ' '] (items.map Arg.print) ++ [']'])

def Connective.word : Connective → Text
  | .and => "and".toList
  | .or => "or".toList

def Comparison.word : Comparison → Text
  | .eq => "eq".toList
  | .like => "like".toList

/-- The word of an operator, after `not` if it is negated. -/
def operatorText (negated : Bool) (word : Text) : Text :=
  if negated then "not ".toList ++ word else word

def Condition.print : Condition → Text
  | .holds arg => arg.print
  | .brackets inner => '(' :: (inner.print ++ [')'])
  | .join connective left right => left.print ++ ' ' :: (connective.word ++ ' ' :: right.print)
  | .compare comparison negated left right =>
    left.print ++ ' ' :: (operatorText negated comparison.word ++ ' ' :: right.print)
  | .among negated arg items =>
    arg.print ++ ' ' :: (operatorText negated "in".toList ++ ' ' :: arrayPrint items)

end Stencil

import Stencil.Grammar.Block
import Stencil.Tree.Printing

/-! # The shape of trees

How many levels a tree opens at once, and which trees are well formed. An index, the
value of a parameter and an item of an array each open a level, as do a condition, the
inside of brackets, the right side of a connective and the body of a directive.
-/
namespace Stencil
open Grammar

mutual

def Arg.nesting : Arg → Nat
  | .mk operand calls => max operand.nesting (callsNesting calls)

def Operand.nesting : Operand → Nat
  | .literal _ => 0
  | .variable _ steps => stepsNesting steps

def stepsNesting : List Step → Nat
  | [] => 0
  | step :: steps => max step.nesting (stepsNesting steps)

def Step.nesting : Step → Nat
  | .field _ => 0
  | .index arg => arg.nesting + 1

def callsNesting : List Call → Nat
  | [] => 0
  | call :: calls => max call.nesting (callsNesting calls)

def Call.nesting : Call → Nat
  | .mk _ params _ => paramsNesting params

def paramsNesting : List Param → Nat
  | [] => 0
  | param :: params => max param.nesting (paramsNesting params)

def Param.nesting : Param → Nat
  | .mk _ none => 0
  | .mk _ (some value) => value.nesting + 1

end

def itemsNesting : List Arg → Nat
  | [] => 0
  | item :: items => max (item.nesting + 1) (itemsNesting items)

/-- The levels of a condition, its own one among them. -/
def Condition.nesting : Condition → Nat
  | .holds arg => arg.nesting + 1
  | .brackets inner => inner.nesting + 1
  | .join _ left right => max left.nesting (right.nesting + 1)
  | .compare _ _ left right => max left.nesting right.nesting + 1
  | .among _ arg items => max arg.nesting (itemsNesting items) + 1

def LoopSource.nesting : LoopSource → Nat
  | .range first last => max first.nesting last.nesting
  | .items args => itemsNesting args

mutual

def Block.nesting : Block → Nat
  | .text _ => 0
  | .branch condition body => max condition.nesting (blocksNesting body + 1)
  | .loop _ source body => max source.nesting (blocksNesting body + 1)
  | .set _ arg => arg.nesting
  | .conf _ arg => arg.nesting
  | .print arg => arg.nesting
  | .trim _ => 0
  | .newline => 0
  | .foreign _ => 0

def blocksNesting : List Block → Nat
  | [] => 0
  | block :: blocks => max block.nesting (blocksNesting blocks)

end

theorem Condition.nesting_pos (c : Condition) : 0 < c.nesting := by
  induction c with
  | join _ left right => simp only [nesting]; omega
  | _ => simp [nesting]

/-- An ASCII letter or underscore, then letters, digits and underscores. -/
def IsName : Text → Prop
  | [] => False
  | c :: rest => isNameStart c = true ∧ ∀ x ∈ rest, isNameChar x = true

mutual

def Arg.WellFormed : Arg → Prop
  | .mk operand calls => operand.WellFormed ∧ CallsWellFormed calls

def Operand.WellFormed : Operand → Prop
  | .literal _ => True
  | .variable root steps => IsName root ∧ StepsWellFormed steps

def StepsWellFormed : List Step → Prop
  | [] => True
  | step :: steps => step.WellFormed ∧ StepsWellFormed steps

def Step.WellFormed : Step → Prop
  | .field name => IsName name
  | .index arg => arg.WellFormed

def CallsWellFormed : List Call → Prop
  | [] => True
  | call :: calls => call.WellFormed ∧ CallsWellFormed calls

def Call.WellFormed : Call → Prop
  | .mk function params _ => IsName function ∧ ParamsWellFormed params

def ParamsWellFormed : List Param → Prop
  | [] => True
  | param :: params => param.WellFormed ∧ ParamsWellFormed params

def Param.WellFormed : Param → Prop
  | .mk key none => IsName key
  | .mk key (some value) => IsName key ∧ value.WellFormed

end

/-- There is one item at least. -/
def ItemsWellFormed (items : List Arg) : Prop := items ≠ [] ∧ ∀ item ∈ items, item.WellFormed

def Condition.IsJoin : Condition → Prop
  | .join _ _ _ => True
  | _ => False

def Condition.WellFormed : Condition → Prop
  | .holds arg => arg.WellFormed
  | .brackets inner => inner.WellFormed
  | .join _ left right => ¬left.IsJoin ∧ left.WellFormed ∧ right.WellFormed
  | .compare _ _ left right => left.WellFormed ∧ right.WellFormed
  | .among _ arg items => arg.WellFormed ∧ ItemsWellFormed items

def LoopSource.WellFormed : LoopSource → Prop
  | .range first last => first.WellFormed ∧ last.WellFormed
  | .items args => ItemsWellFormed args

/-- A text needs a backslash if it holds a brace or backslash, or follows another text. -/
def NeedsEscape (afterText : Bool) (t : Text) : Prop :=
  afterText = true ∨ ∃ x ∈ t, isTextChar x = false

theorem needsEscape_iff {afterText : Bool} {t : Text} :
    NeedsEscape afterText t ↔ (afterText || t.any fun x => !isTextChar x) = true := by
  simp [NeedsEscape]

instance (afterText : Bool) (t : Text) : Decidable (NeedsEscape afterText t) :=
  decidable_of_iff _ needsEscape_iff.symm

/-- A text is not empty, has braces and backslashes among its first two characters only, and
has two characters at least if it needs a backslash. -/
structure TextWellFormed (afterText : Bool) (t : Text) : Prop where
  nonempty : t ≠ []
  plain_after : ∀ x ∈ t.drop 2, isTextChar x = true
  two_le : NeedsEscape afterText t → 2 ≤ t.length

def Block.isText : Block → Bool
  | .text _ => true
  | _ => false

mutual

/-- Whether a block is well formed where it stands, directly after a text or not. -/
def Block.WellFormed (afterText : Bool) : Block → Prop
  | .text t => TextWellFormed afterText t
  | .branch condition body => condition.WellFormed ∧ BlocksWellFormed false body
  | .loop name source body => IsName name ∧ source.WellFormed ∧ BlocksWellFormed false body
  | .set name arg => IsName name ∧ arg.WellFormed
  | .conf key arg => IsName key ∧ arg.WellFormed
  | .print arg => arg.WellFormed
  | .trim _ => True
  | .newline => True
  | .foreign _ => False

def BlocksWellFormed (afterText : Bool) : List Block → Prop
  | [] => True
  | block :: blocks => block.WellFormed afterText ∧ BlocksWellFormed block.isText blocks

end

def LoopSource.source : LoopSource → Text
  | .range first last => "in ".toList ++ first.print ++ ['.','.'] ++ last.print
  | .items args => "of ".toList ++ arrayPrint args

/-- A text as it stands, or behind a backslash if it needs one. -/
def textSource (afterText : Bool) (t : Text) : Text :=
  if NeedsEscape afterText t then '\\' :: t else t

mutual

/-- The canonical source text of a block, directly after a text or not. -/
def Block.source (afterText : Bool) : Block → Text
  | .text t => textSource afterText t
  | .branch condition body =>
    openToken "if ".toList ++ condition.print ++ closeToken ++ blocksSource false body ++
      endToken "if".toList
  | .loop name source body =>
    openToken "for ".toList ++ name ++ ' ' :: source.source ++ closeToken ++
      blocksSource false body ++ endToken "for".toList
  | .set name arg =>
    openToken "set ".toList ++ name ++ " = ".toList ++ arg.print ++ closeToken
  | .conf key arg =>
    openToken "conf ".toList ++ key ++ " = ".toList ++ arg.print ++ closeToken
  | .print arg => openToken [':'] ++ arg.print ++ closeToken
  | .trim direction => openToken "trim ".toList ++ direction.name ++ closeToken
  | .newline => openToken "nl".toList ++ closeToken
  | .foreign _ => []

def blocksSource (afterText : Bool) : List Block → Text
  | [] => []
  | block :: blocks => block.source afterText ++ blocksSource block.isText blocks

end

end Stencil

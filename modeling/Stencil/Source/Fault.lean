import Stencil.Source.Cursor

/-! # What can be wrong with a source text

A fault is a problem with the place where it shows. Offsets count from the start of the
text, so that a fault can be pictured from the text alone.
-/
namespace Stencil

/-- What a token that the grammar demands is there for. -/
inductive Role where
  | startDirective
  | closeDirective
  | endDirective
  | rangeSeparator
  | symbol
  | named (name : Text)
  deriving DecidableEq, Repr

def Role.name : Role → Text
  | startDirective => "start directive".toList
  | closeDirective => "close directive".toList
  | endDirective => "end directive".toList
  | rangeSeparator => "range separator".toList
  | symbol => "symbol".toList
  | named name => name

inductive Problem where
  | endOfText
  | missingToken (role : Role) (token : Text)
  | wrongToken (role : Role) (token found : Text)
  | noQuote (found : Text)
  | openLiteral
  | noName
  | noParam
  | noFunction
  | missingArgument
  | wrongArgument (found : Char)
  | noCondition
  | loneNot
  | missingLoopKind
  | wrongLoopKind (found : Text)
  | wrongDirection (found : Text)
  | unknownDirective (name : Text)
  | strayBrace (found : Text)
  | unmatchedEnd (tag : Text)
  | afterCondition (found : Text)
  | tooDeep
  deriving DecidableEq, Repr

/-- The levels that may be open at once under a depth limit. Reading goes no deeper than
`ceiling`, whatever depth is asked for. -/
def levelsFor (ceiling : Nat) (limit : Int) : Nat := min limit.toNat ceiling

def ceilingCuts (ceiling : Nat) (limit : Int) : Bool := decide ((ceiling : Int) < limit)

def tooDeepMessage (ceiling : Nat) (limit : Int) : Text :=
  if ceilingCuts ceiling limit then "Template is too deeply nested for the interpreter stack".toList
  else "Template is too deeply nested (limit is ".toList ++ intText limit ++ [')']

def Problem.message (ceiling : Nat) (limit : Int) : Problem → Text
  | endOfText => "Unexpected end of input".toList
  | missingToken role token =>
    "Unexpected end of input: expected ".toList ++ role.name ++ " \"".toList ++ token ++ ['"']
  | wrongToken role token found =>
    "Wrong ".toList ++ role.name ++ " \"".toList ++ found ++ "\", expected \"".toList ++ token ++ ['"']
  | noQuote found => "Expected quote but found \"".toList ++ found ++ ['"']
  | openLiteral => "Unterminated text literal".toList
  | noName => "Empty identificator".toList
  | noParam => "Empty param".toList
  | noFunction => "Empty function name".toList
  | missingArgument => "Unexpected end of input: expected text or variable".toList
  | wrongArgument found => "Expected text or variable but found \"".toList ++ [found, '"']
  | noCondition => "Invalid condition".toList
  | loneNot => "Expected eq, like or in after not".toList
  | missingLoopKind => "Unexpected end of input: expected \"in\" or \"of\"".toList
  | wrongLoopKind found =>
    "Wrong loop type \"".toList ++ found ++ "\", expected \"in\" or \"of\"".toList
  | wrongDirection found => "Wrong trim direction \"".toList ++ found ++ ['"']
  | unknownDirective name => "Unknown start directive \"".toList ++ name ++ ['"']
  | strayBrace found => "Unknown \"".toList ++ found ++ ['"']
  | unmatchedEnd tag => "Unmatched end directive \"".toList ++ tag ++ ['"']
  | afterCondition found => "Unexpected \"".toList ++ found ++ "\" after condition".toList
  | tooDeep => tooDeepMessage ceiling limit

/-- A problem, the offset where it shows, and how many characters it is about. -/
structure Fault where
  problem : Problem
  offset : Nat
  width : Nat
  deriving DecidableEq, Repr

def Cursor.fault (c : Cursor) (problem : Problem) (width : Nat) : Fault := ⟨problem, c.offset, width⟩

structure Refusal where
  source : Text
  ceiling : Nat
  limit : Int
  fault : Fault
  deriving DecidableEq, Repr

namespace Refusal

def message (r : Refusal) : Text := r.fault.problem.message r.ceiling r.limit

def position (r : Refusal) : Position := Source.position r.source r.fault.offset

def picture (r : Refusal) : Text := Source.picture r.source r.fault.offset r.fault.width r.message

def isTooDeep (r : Refusal) : Bool := r.fault.problem = .tooDeep

def isCeiling (r : Refusal) : Bool := r.isTooDeep && ceilingCuts r.ceiling r.limit

end Refusal

end Stencil

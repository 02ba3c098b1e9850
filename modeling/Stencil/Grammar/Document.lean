import Stencil.Grammar.Block
import Stencil.Text.Search

/-! # Whole texts

A template is a sequence of blocks that takes up all of its text, and a condition stands
alone in its text, with blanks around it at most.
-/
namespace Stencil

open Grammar

/-- How far the end tag at the front of `t` goes: up to its closing braces, or to the end. -/
def endTagLength (t : Text) : Nat :=
  match Text.breakAt? closeToken t with
  | some (before, _) => before.length + closeToken.length
  | none => t.length

def readBlocks (levels : Nat) (source : Text) : Except Fault (List Block) := do
  let (blocks, c) ← blocks levels (.start source)
  if c.atEnd then return blocks
  else
    let width := endTagLength c.rest
    throw (c.fault (.unmatchedEnd (c.peek width)) width)

def readLeadingCondition (levels : Nat) (source : Text) : Except Fault (Condition × Cursor) :=
  condition levels (.start source)

/-- Nothing but blanks may follow a condition. -/
def checkRest (c : Cursor) : Except Fault Unit :=
  let c := c.skipBlank
  if c.atEnd then return ()
  else throw (c.fault (.afterCondition (c.peek 10)) (min 10 c.rest.length))

def readCondition (levels : Nat) (source : Text) : Except Fault Condition := do
  let (condition, c) ← readLeadingCondition levels source
  checkRest c
  return condition

end Stencil

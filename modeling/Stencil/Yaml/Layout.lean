import Stencil.Text.Basic

/-! # Layout of a document

Line breaks, columns and document markers. In block style the column where content begins
says what it belongs to, so the head that reads a document keeps count of it.
-/
namespace Stencil.Yaml

def isGap (c : Char) : Bool := c == ' ' || c == '\t'

/-- Newlines, and the separators of lines and of paragraphs. -/
def isBreak (c : Char) : Bool := c == '\n' || c == '\u2028' || c == '\u2029'

def endsWord (rest : Text) : Bool := rest.head?.all fun c => isGap c || isBreak c

def startsMarker (mark : Char) (rest : Text) : Bool :=
  [mark, mark, mark].isPrefixOf rest && endsWord (rest.drop 3)

def startsBoundary (rest : Text) : Bool := startsMarker '-' rest || startsMarker '.' rest

structure Head where
  index : Nat := 0
  line : Nat := 0
  column : Nat := 0
  rest : Text
  deriving DecidableEq, Repr

namespace Head

def advance : Nat → Head → Head
  | 0, h => h
  | n + 1, h =>
    match h.rest with
    | [] => h
    | c :: rest =>
      if isBreak c then advance n ⟨h.index + 1, h.line + 1, 0, rest⟩
      else advance n ⟨h.index + 1, h.line, h.column + 1, rest⟩

theorem rest_advance (n : Nat) (h : Head) : (h.advance n).rest = h.rest.drop n := by
  induction n generalizing h with
  | zero => rfl
  | succ n ih =>
    rcases h with ⟨index, line, column, _ | ⟨c, rest⟩⟩
    · rfl
    · by_cases hc : isBreak c = true <;> simp [advance, hc, ih]

end Head

end Stencil.Yaml

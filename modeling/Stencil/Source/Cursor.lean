import Stencil.Source.Position

/-! # The reading cursor

A cursor stands in a text between what was read and what is left. It keeps count of its
offset and position as it goes, one character at a time.
-/
namespace Stencil

structure Cursor where
  offset : Nat := 0
  position : Position := {}
  rest : Text
  deriving DecidableEq, Repr

namespace Cursor

def start (source : Text) : Cursor := { rest := source }

/-- Moves over `n` characters, or over all that are left. -/
def advance : Nat → Cursor → Cursor
  | 0, c => c
  | n + 1, c =>
    match c.rest with
    | [] => c
    | x :: rest => advance n ⟨c.offset + 1, c.position.next x, rest⟩

def peek (c : Cursor) (n : Nat) : Text := c.rest.take n

def atEnd (c : Cursor) : Bool := c.rest.isEmpty

def startsWith (c : Cursor) (token : Text) : Bool := token.isPrefixOf c.rest

def skipWhile (p : Char → Bool) (c : Cursor) : Cursor := c.advance (c.rest.takeWhile p).length

def skipBlank (c : Cursor) : Cursor := c.skipWhile isBlank

theorem rest_advance (n : Nat) (c : Cursor) : (c.advance n).rest = c.rest.drop n := by
  induction n generalizing c with
  | zero => rfl
  | succ n ih =>
    rcases c with ⟨offset, position, _ | ⟨x, rest⟩⟩
    · rfl
    · exact ih _

theorem offset_advance (n : Nat) (c : Cursor) :
    (c.advance n).offset = c.offset + min n c.rest.length := by
  induction n generalizing c with
  | zero => simp [advance]
  | succ n ih =>
    rcases c with ⟨offset, position, _ | ⟨x, rest⟩⟩
    · simp [advance]
    · simp only [advance, ih, List.length_cons]; omega

theorem advance_advance (m n : Nat) (c : Cursor) : (c.advance m).advance n = c.advance (m + n) := by
  induction m generalizing c with
  | zero => simp [advance]
  | succ m ih =>
    rcases c with ⟨offset, position, _ | ⟨x, rest⟩⟩
    · cases n <;> rfl
    · simp only [advance, Nat.succ_add, ih]

theorem drop_length_takeWhile (p : Char → Bool) (t : Text) :
    t.drop (t.takeWhile p).length = t.dropWhile p := by
  induction t with
  | nil => rfl
  | cons c t ih => by_cases h : p c <;> simp [h, ih]

theorem rest_skipWhile (p : Char → Bool) (c : Cursor) :
    (c.skipWhile p).rest = c.rest.dropWhile p := by
  rw [skipWhile, rest_advance, drop_length_takeWhile]

end Cursor

end Stencil

import Stencil.Proofs.Reading.Lexeme
import Stencil.Proofs.Source.Line

/-! # A cursor knows its place

A cursor keeps count of offset, row and column as it moves, one character at a time. After any
requests, whether they were granted or refused, the count is what counting in the text would give.
-/
namespace Stencil

/-- One more character moves the position on by that character. -/
theorem Source.position_snoc (read rest : Text) (x : Char) :
    position (read ++ x :: rest) (read.length + 1) =
      (position (read ++ x :: rest) read.length).next x := by
  have hnext : (read ++ x :: rest).take (read.length + 1) = read ++ [x] := by
    rw [List.take_length_add_append]
    rfl
  have hhere : (read ++ x :: rest).take read.length = read := List.take_left
  simp only [position,lineBefore,hnext,hhere,List.reverse_append,List.reverse_singleton,
    List.singleton_append,List.count_append,Position.next]
  by_cases hx : x = '\n'
  · rw [if_pos hx,hx]
    simp
  · rw [if_neg hx]
    simp [hx]

namespace Cursor

/-- The cursor stands in `source` behind `read`, and knows where that is. -/
structure StandsBehind (read source : Text) (c : Cursor) : Prop where
  whole : source = read ++ c.rest
  offset : c.offset = read.length
  position : c.position = Source.position source read.length

variable {read source : Text} {c : Cursor}

theorem standsBehind_start (source : Text) : (start source).StandsBehind [] source where
  whole := rfl
  offset := rfl
  position := rfl

/-- The cursor moves character by character, and so does the place behind it. -/
theorem StandsBehind.advance (h : c.StandsBehind read source) (n : Nat) :
    (c.advance n).StandsBehind (read ++ c.rest.take n) source := by
  induction n generalizing c read with
  | zero =>
    rw [advance_zero,List.take_zero,List.append_nil]
    exact h
  | succ n ih =>
    obtain ⟨hwhole,hoffset,hposition⟩ := h
    rcases c with ⟨offset,position,_ | ⟨x,rest⟩⟩
    · rw [List.take_nil,List.append_nil]
      exact ⟨hwhole,hoffset,hposition⟩
    · dsimp only at hwhole hoffset hposition
      have hstep : StandsBehind (read ++ [x]) source ⟨offset + 1,position.next x,rest⟩ := by
        refine ⟨?_,?_,?_⟩
        · rw [hwhole,List.append_assoc]
          rfl
        · rw [hoffset,List.length_append]
          rfl
        · rw [hposition,hwhole,List.length_append]
          exact (Source.position_snoc read rest x).symm
      have hlater := ih hstep
      rwa [List.append_assoc] at hlater

theorem StandsBehind.drop (h : c.StandsBehind read source) : source.drop c.offset = c.rest := by
  rw [h.whole,h.offset,List.drop_left]

theorem StandsBehind.take (h : c.StandsBehind read source) : source.take c.offset = read := by
  rw [h.whole,h.offset,List.take_left]

theorem StandsBehind.length (h : c.StandsBehind read source) :
    source.length = c.offset + c.rest.length := by
  rw [h.whole,h.offset,List.length_append]

/-- What a cursor is asked for: to show the next characters, or to move over them. -/
inductive Request where
  | peek (n : Nat)
  | consume (n : Nat)
  deriving DecidableEq, Repr

/-- The answer to a request and the cursor after it. Where a request is refused, it stays. -/
def answer (c : Cursor) : Request → Except Fault Text × Cursor
  | .peek n => (.ok (c.peek n),c)
  | .consume n =>
    match Grammar.take n c with
    | .ok (chunk,d) => (.ok chunk,d)
    | .error fault => (.error fault,c)

/-- The characters that an answer moved over. -/
def Request.moved : Request → Except Fault Text → Text
  | .consume _,.ok chunk => chunk
  | _,_ => []

/-- The chunks that were moved over, request by request, and the cursor after them. -/
def session : List Request → Cursor → List Text × Cursor
  | [],c => ([],c)
  | request :: requests,c =>
    let (result,d) := c.answer request
    let (chunks,e) := session requests d
    (request.moved result :: chunks,e)

theorem answer_consume (c : Cursor) (n : Nat) : c.answer (.consume n) =
    if n ≤ c.rest.length then (.ok (c.rest.take n),c.advance n) else (.error (c.fault .endOfText 1),c) := by
  by_cases hn : n ≤ c.rest.length
  · have htake : Grammar.take n c = .ok (c.rest.take n,c.advance n) :=
      Grammar.take_eq_ok.mpr ⟨hn,rfl,rfl⟩
    rw [if_pos hn,answer,htake]
  · have htake : Grammar.take n c = .error (c.fault .endOfText 1) := if_pos (Nat.not_le.mp hn)
    rw [if_neg hn,answer,htake]

/-- One request. -/
theorem StandsBehind.answer (h : c.StandsBehind read source) (request : Request) :
    (c.answer request).2.StandsBehind (read ++ request.moved (c.answer request).1) source := by
  cases request with
  | peek n =>
    rw [Request.moved,List.append_nil]
    · exact h
    · exact nofun
  | consume n =>
    rw [answer_consume]
    by_cases hn : n ≤ c.rest.length
    · rw [if_pos hn]
      exact h.advance n
    · rw [if_neg hn,Request.moved,List.append_nil]
      · exact h
      · exact nofun

/-- All requests of a session. -/
theorem StandsBehind.session (h : c.StandsBehind read source) (requests : List Request) :
    (session requests c).2.StandsBehind (read ++ (session requests c).1.flatten) source := by
  induction requests generalizing c read with
  | nil =>
    rw [Cursor.session,List.flatten_nil,List.append_nil]
    exact h
  | cons request requests ih =>
    have hlater := ih (h.answer request)
    rw [Cursor.session,List.flatten_cons,← List.append_assoc]
    exact hlater

/-- A session reads the text from its start, without gaps, and at every point of it the row and column
that the cursor has counted are those that the newlines in what was read give. A request for more
than is left is refused there, and nothing has moved. -/
theorem session_keeps_place (source : Text) (requests : List Request) :
    let chunks := (session requests (start source)).1
    let c := (session requests (start source)).2
    c.offset ≤ source.length ∧ chunks.flatten = source.take c.offset ∧
    c.position = Source.position source (Source.offsetBy source c.offset 0) ∧
    (∃ above before, source.take c.offset = above ++ before ∧ (∀ x ∈ above.getLast?, x = '\n') ∧
      '\n' ∉ before ∧ c.position = ⟨1 + (source.take c.offset).count '\n',1 + before.length⟩) ∧
    (∀ n, c.answer (.peek n) = (.ok ((source.drop c.offset).take n),c)) ∧
    (∀ n, c.answer (.consume n) =
      if c.offset + n ≤ source.length then (.ok ((source.drop c.offset).take n),c.advance n)
      else (.error (c.fault .endOfText 1),c)) ∧
    ∀ ceiling limit, (Refusal.mk source ceiling limit (c.fault .endOfText 1)).position = c.position ∧
      (Refusal.mk source ceiling limit (c.fault .endOfText 1)).message = "Unexpected end of input".toList := by
  intro chunks c
  have hstands : c.StandsBehind chunks.flatten source := (standsBehind_start source).session requests
  have hlength := hstands.length
  have hposition : c.position = Source.position source c.offset := by
    rw [hstands.position,hstands.offset]
  have hhere : Source.offsetBy source c.offset 0 = c.offset := by
    unfold Source.offsetBy
    omega
  obtain ⟨above,habove,hbegins⟩ := Source.exists_above source c.offset
  refine ⟨by omega,hstands.take.symm,?_,⟨above,_,habove,hbegins,Source.newline_notMem_lineBefore,?_⟩,
    fun n => ?_,fun n => ?_,fun _ _ => ⟨hposition.symm,rfl⟩⟩
  · rw [hhere,hposition]
  · rw [hposition,Source.position,Nat.add_comm 1,Nat.add_comm 1]
  · rw [hstands.drop]
    rfl
  · rw [answer_consume,hstands.drop]
    have hleft : n ≤ c.rest.length ↔ c.offset + n ≤ source.length := by omega
    simp only [hleft]

/-- The second chunk ends a line and the third is an empty line. In between, a peek and a refusal. -/
example : session [.consume 1,.consume 1,.peek 9,.consume 5,.consume 1] (start "a\n\nb".toList) =
    ([['a'],['\n'],[],[],['\n']],⟨3,⟨3,1⟩,['b']⟩) := by
  decide

end Cursor

end Stencil

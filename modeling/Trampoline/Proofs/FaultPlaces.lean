import Trampoline.Proofs.Lookahead
import Trampoline.Proofs.Positions
import Trampoline.Proofs.Splitting

set_option autoImplicit false

namespace Trampoline

theorem Position.skipBlanks_again (comment : Bool) (cs : List Char) (p : Position) :
    skipBlanks false (skipBlanks comment cs p).1 (skipBlanks comment cs p).2 = skipBlanks comment cs p := by
  induction cs generalizing comment p with
  | nil => cases comment <;> rfl
  | cons c cs ih =>
      cases comment with
      | true => exact ih _ _
      | false =>
          by_cases blank : Lexeme.isBlank c = true
          · simp only [skipBlanks, if_pos blank]
            exact ih false _
          by_cases sign : c = '#'
          · simp only [skipBlanks, if_neg blank, if_pos sign]
            exact ih true _
          · simp only [skipBlanks, if_neg blank, if_neg sign]

theorem Cursor.skipBlanks_again (c : Cursor) : c.skipBlanks.skipBlanks = c.skipBlanks := by
  have again := Position.skipBlanks_again false c.rest c.pos
  simp only [Cursor.skipBlanks]
  rw [again]

namespace TokenStream

open Tokens (ofCursor)

variable {s : TokenStream} (fresh : s.current = none)

include fresh

theorem next_fresh : s.next.2.current = none ∧ ofCursor s.next.2.input = (ofCursor s.input).tail := by
  have stays (ended : (ofCursor s.input).list = []) : ofCursor s.input.skipBlanks = (ofCursor s.input).tail := by
    rw [Tokens.ofCursor_congr s.input.skipBlanks_again, Tokens.tail, ended]
    cases made : ofCursor s.input with
    | mk list ending =>
        rw [made] at ended
        cases ended
        rfl
  rw [TokenStream.next, fresh]
  refine ⟨rfl, ?_⟩
  show ofCursor s.read.2 = _
  rw [TokenStream.read]
  cases found : s.input.scan with
  | token t after => rw [Tokens.ofCursor_eq s.input, found, Tokens.tail, List.tail_cons]
  | ended after =>
      obtain ⟨_, rfl⟩ := Cursor.scan_ended found
      exact stays (by rw [Tokens.ofCursor_eq, found])
  | stray c ahead =>
      obtain ⟨_, _, rfl⟩ := Cursor.scan_stray found
      exact stays (by rw [Tokens.ofCursor_eq, found])

theorem peek_fresh : s.peek.2.input.pos = (ofCursor s.input).pos ∧
    ∀ t rest, (ofCursor s.input).list = t :: rest → s.peek.1 = .ok (some t) := by
  simp only [TokenStream.peek, fresh, TokenStream.read, Tokens.ofCursor_eq s.input]
  cases found : s.input.scan with
  | token t after =>
      obtain ⟨_, _, _, _, stop⟩ := Cursor.scan_token found
      refine ⟨stop.symm, ?_⟩
      rintro u rest ⟨⟩
      rfl
  | ended after =>
      refine ⟨rfl, ?_⟩
      intro t rest first
      cases first
  | stray c ahead =>
      refine ⟨rfl, ?_⟩
      intro t rest first
      cases first

theorem taken_fresh (n : Nat) : (s.serve (List.replicate n .next)).current = none ∧
    ofCursor (s.serve (List.replicate n .next)).input = (ofCursor s.input).after n := by
  induction n generalizing s with
  | zero => exact ⟨fresh, rfl⟩
  | succ n ih =>
      obtain ⟨fresh', behind⟩ := next_fresh fresh
      obtain ⟨last, left⟩ := ih fresh'
      rw [behind, Tokens.after_tail] at left
      exact ⟨last, left⟩

end TokenStream

def TokenStream.lookingBehind (source : String) (n : Nat) : TokenStream :=
  (ofSource source).serve (List.replicate n .next ++ [.peek])

namespace TokenStream

theorem lookingBehind_pos (source : String) (n : Nat) :
    (lookingBehind source n).input.pos = ((Tokens.ofSource source).after n).pos := by
  obtain ⟨fresh, left⟩ := taken_fresh (s := ofSource source) rfl n
  rw [lookingBehind, serve, List.foldl_append]
  exact (peek_fresh fresh).1.trans (congrArg Tokens.pos left)

theorem exact_tokens (source : String) : ∀ t ∈ (Tokens.ofSource source).list, t.Exact source.toList := by
  intro t member
  obtain ⟨n, inside, rfl⟩ := List.getElem_of_mem member
  obtain ⟨fresh, left⟩ := taken_fresh (s := ofSource source) rfl n
  have first : _ = (Tokens.ofSource source).list.drop n := congrArg Tokens.list left
  rw [List.drop_eq_getElem_cons inside] at first
  have peeked := ((tracks_ofSource source).serve (List.replicate n .next)).peek
  exact peeked.given _ ((peek_fresh fresh).2 _ _ first) _ List.mem_cons_self

end TokenStream

-- Positions are exact wherever they can be seen. Whatever a cursor or a token stream has been asked, its line and
-- column are those of its offset; the stream is at most one step beyond the source, the tokens that it gives are
-- placed exactly, and its errors stand where its input stands. The descent front end takes these tokens from this
-- stream: when it refuses a source, it has taken some of them and looked at one more, its error stands where the
-- input stands then, and whatever else might follow would be refused there too.
theorem positions_are_exact (source : String) :
    (∀ requests, ((Cursor.ofSource source).serve requests).Tracks source ∧
      ∀ request e, (((Cursor.ofSource source).serve requests).answer request).1 = .error e →
        e = e.cause.located (((Cursor.ofSource source).serve requests).answer request).2.pos) ∧
    (∀ requests, ((TokenStream.ofSource source).serve requests).Tracks source ∧
      ∀ request, TokenStream.ExactReply source TokenStream.Reply.given
        (((TokenStream.ofSource source).serve requests).answer request)) ∧
    (∀ t ∈ (Tokens.ofSource source).list, t.Exact source.toList) ∧
    (∀ n, ((Tokens.ofSource source).after n).pos = (TokenStream.lookingBehind source n).input.pos) ∧
    ∀ e, Descent.parse source = .error e → ∃ n,
      e = e.cause.located (TokenStream.lookingBehind source n).input.pos ∧
      ∀ ts, Tokens.SameAhead n (Tokens.ofSource source) ts →
        Descent.sequence (Descent.boundFor (.ofSource source)) ts = .error (e.cause.located (ts.after n).pos) := by
  have taken (n : Nat) := (TokenStream.lookingBehind_pos source n).symm
  refine ⟨fun requests => ?_, fun requests => ?_, TokenStream.exact_tokens source, taken, fun e refused => ?_⟩
  · exact ⟨(Cursor.tracks_ofSource source).serve requests, fun _ _ => Cursor.fault_answer⟩
  · have tracks := (TokenStream.tracks_ofSource source).serve requests
    exact ⟨tracks, tracks.answer⟩
  · have failed := Descent.sequence_of_refused refused
    have decides := Descent.decides_sequence (Descent.boundFor (.ofSource source)) (.ofSource source)
    obtain ⟨n, ⟨x, given⟩ | ⟨cause, located⟩⟩ := decides
    · cases failed.symm.trans (given _ .refl)
    · cases failed.symm.trans (located _ .refl)
      refine ⟨n, ?_, located⟩
      rw [← taken n]
      rfl

def openCall : String := "f(\n# x"

theorem openCall_refused_beyond : Descent.parse openCall = .error ⟨.expectedMark ')', 2, 4⟩ ∧
    ∃ n, (TokenStream.lookingBehind openCall n).input.pos.line = 2 ∧
      (TokenStream.lookingBehind openCall n).input.pos.column = 4 ∧
      (TokenStream.lookingBehind openCall n).Tracks openCall := by
  have refused : Descent.parse openCall = .error ⟨.expectedMark ')', 2, 4⟩ := by with_unfolding_all rfl
  obtain ⟨_, stream, _, _, places⟩ := positions_are_exact openCall
  obtain ⟨n, place, _⟩ := places _ refused
  exact ⟨refused, n, (congrArg ParseError.line place).symm, (congrArg ParseError.column place).symm,
    (stream (List.replicate n TokenStream.Request.next ++ [TokenStream.Request.peek])).1⟩

end Trampoline

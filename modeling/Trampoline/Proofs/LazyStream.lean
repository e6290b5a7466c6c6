import Trampoline.Proofs.FaultPlaces

set_option autoImplicit false

namespace Trampoline

namespace Tokens

def given (ts : Tokens) : Except ParseError (Option Token) :=
  match ts.list with
  | t :: _ => .ok (some t)
  | [] => ts.complete.map fun _ => none

variable {ts : Tokens}

theorem given_cons {t : Token} {rest : List Token} (first : ts.list = t :: rest) : ts.given = .ok (some t) := by
  rw [given, first]

theorem given_nil (ended : ts.list = []) : ts.given = ts.complete.map fun _ => none := by
  rw [given, ended]

theorem tail_nil (ended : ts.list = []) : ts.tail = ts := by
  obtain ⟨list, ending⟩ := ts
  cases ended
  rfl

theorem tail_after (n : Nat) : (ts.after n).tail = ts.after (n + 1) := by
  simp only [after, tail, List.tail_drop]

theorem complete_after (n : Nat) : (ts.after n).complete = ts.complete.map (List.drop n) := by
  obtain ⟨list, ending⟩ := ts
  cases ending with
  | ended _ => rfl
  | stray _ _ => rfl

theorem complete_cons {t : Token} {rest : List Token} (first : ts.list = t :: rest) :
    ts.complete = ts.tail.complete.map (t :: ·) := by
  obtain ⟨list, ending⟩ := ts
  cases first
  cases ending with
  | ended _ => rfl
  | stray _ _ => rfl

theorem list_of_complete {tokens : List Token} (complete : ts.complete = .ok tokens) : ts.list = tokens := by
  obtain ⟨list, ending⟩ := ts
  cases ending with
  | ended _ => exact Except.ok.inj complete
  | stray _ _ => cases complete

theorem cons_tail {t : Token} {rest : List Token} (first : ts.list = t :: rest) :
    { ts.tail with list := t :: ts.tail.list } = ts := by
  obtain ⟨list, ending⟩ := ts
  cases first
  rfl

theorem after_length {n : Nat} (beyond : ts.list.length ≤ n) : ts.after n = ts.after ts.list.length := by
  simp only [after, List.drop_of_length_le beyond, List.drop_length]

end Tokens

namespace TokenStream

open Tokens (ofCursor)

def round (s : TokenStream) : Except ParseError (Option Token) × TokenStream :=
  match s.atEnd with
  | (.ok false, after) => after.next
  | (.ok true, after) => (.ok none, after)
  | (.error e, after) => (.error e, after)

inductive Call where
  | ask (request : Request)
  | round

def respond (s : TokenStream) : Call → Except ParseError Reply × TokenStream
  | .ask request => s.answer request
  | .round => (s.round.1.map .token, s.round.2)

def used (s : TokenStream) (calls : List Call) : TokenStream := calls.foldl (fun s call => (s.respond call).2) s

def left (s : TokenStream) : Tokens :=
  match s.current with
  | none => ofCursor s.input
  | some t => { ofCursor s.input with list := t :: (ofCursor s.input).list }

def AtStop (s : TokenStream) : Prop := ∀ t ∈ s.current, s.input.pos = t.stop

-- An answer about the first of some tokens, and a stream that has read up to the end of that one and has others left.
structure Gives (ts behind : Tokens) (r : Except ParseError (Option Token) × TokenStream) : Prop where
  answer : r.1 = ts.given
  left : r.2.left = behind
  pos : r.2.input.pos = ts.pos
  placed : r.2.AtStop

section Steps

variable {s : TokenStream}

theorem left_fresh (fresh : s.current = none) : s.left = ofCursor s.input := by
  rw [left, fresh]

theorem left_seen {t : Token} (seen : s.current = some t) :
    s.left = { ofCursor s.input with list := t :: (ofCursor s.input).list } := by
  rw [left, seen]

theorem placed_fresh (fresh : s.current = none) : s.AtStop := by
  intro t seen
  rw [fresh] at seen
  cases seen

theorem read_given : s.read.1 = (ofCursor s.input).given ∧ s.read.2.pos = (ofCursor s.input).pos := by
  rw [TokenStream.read, Tokens.ofCursor_eq s.input]
  cases found : s.input.scan with
  | token t after =>
      obtain ⟨_, _, _, _, stop⟩ := Cursor.scan_token found
      exact ⟨rfl, stop.symm⟩
  | ended after => exact ⟨rfl, rfl⟩
  | stray c ahead => exact ⟨rfl, rfl⟩

theorem next_gives (placed : s.AtStop) : Gives s.left s.left.tail s.next := by
  cases here : s.current with
  | none =>
      obtain ⟨fresh, behind⟩ := next_fresh here
      obtain ⟨answer, pos⟩ := read_given (s := s)
      rw [left_fresh here]
      refine ⟨?_, (left_fresh fresh).trans behind, ?_, placed_fresh fresh⟩
      · rw [TokenStream.next, here]
        exact answer
      · rw [TokenStream.next, here]
        exact pos
  | some t =>
      rw [left_seen here, TokenStream.next, here]
      exact ⟨rfl, rfl, placed t here, placed_fresh rfl⟩

theorem peek_fresh_eq (fresh : s.current = none) :
    s.peek = (s.next.1, { s.next.2 with current := s.next.1.toOption.join }) := by
  rw [TokenStream.peek, TokenStream.next, fresh]
  generalize s.read = r
  obtain ⟨result, input⟩ := r
  cases result with
  | error e => rfl
  | ok found => rfl

theorem peek_gives (placed : s.AtStop) : Gives s.left s.left s.peek := by
  cases here : s.current with
  | some t =>
      rw [left_seen here, TokenStream.peek, here]
      exact ⟨rfl, left_seen here, placed t here, placed⟩
  | none =>
      obtain ⟨answer, behind, pos, _⟩ := next_gives placed
      have stepped : ofCursor s.next.2.input = s.left.tail := (left_fresh (next_fresh here).1).symm.trans behind
      rw [peek_fresh_eq here]
      cases tokens : s.left.list with
      | nil =>
          have kept : s.next.1.toOption.join = none := by
            rw [answer, Tokens.given_nil tokens]
            cases s.left.complete <;> rfl
          refine ⟨answer, ?_, pos, placed_fresh kept⟩
          rw [left_fresh kept, stepped, Tokens.tail_nil tokens]
      | cons t rest =>
          have kept : s.next.1.toOption.join = some t := by
            rw [answer, Tokens.given_cons tokens]
            rfl
          refine ⟨answer, ?_, pos, ?_⟩
          · rw [left_seen kept, stepped]
            exact Tokens.cons_tail tokens
          · intro u seen
            cases kept.symm.trans seen
            rw [pos, Tokens.pos, tokens]

theorem round_gives (placed : s.AtStop) : Gives s.left s.left.tail s.round := by
  have look := peek_gives placed
  rw [round, atEnd]
  generalize s.peek = r at look ⊢
  obtain ⟨result, seen⟩ := r
  obtain ⟨answer, behind, pos, placed'⟩ := look
  simp only at answer behind pos placed'
  subst answer
  cases tokens : s.left.list with
  | nil =>
      rw [Tokens.tail_nil tokens, Tokens.given_nil tokens]
      cases complete : s.left.complete with
      | error e => exact ⟨by rw [Tokens.given_nil tokens, complete]; rfl, behind, pos, placed'⟩
      | ok _ => exact ⟨by rw [Tokens.given_nil tokens, complete]; rfl, behind, pos, placed'⟩
  | cons t rest =>
      rw [Tokens.given_cons tokens, ← behind]
      exact next_gives placed'

theorem drain_gives {bound : Nat} (placed : s.AtStop) (enough : s.left.list.length < bound) :
    (drain bound s).1 = s.left.complete ∧ (drain bound s).2.left = s.left.after s.left.list.length ∧
      (drain bound s).2.input.pos = (s.left.after s.left.list.length).pos ∧ (drain bound s).2.AtStop := by
  induction bound generalizing s with
  | zero => exact absurd enough (Nat.not_lt_zero _)
  | succ bound ih =>
      have step := next_gives placed
      rw [drain]
      generalize s.next = r at step ⊢
      obtain ⟨result, after⟩ := r
      obtain ⟨answer, behind, pos, placed'⟩ := step
      simp only at answer behind pos placed'
      subst answer
      cases tokens : s.left.list with
      | nil =>
          have same : s.left.after 0 = s.left := rfl
          rw [Tokens.tail_nil tokens] at behind
          rw [Tokens.given_nil tokens, List.length_nil, same]
          cases complete : s.left.complete with
          | error e => exact ⟨rfl, behind, pos, placed'⟩
          | ok all =>
              obtain rfl : all = [] := (Tokens.list_of_complete complete).symm.trans tokens
              exact ⟨rfl, behind, pos, placed'⟩
      | cons t rest =>
          have fewer : after.left.list = rest := by rw [behind, Tokens.tail, tokens, List.tail_cons]
          rw [tokens] at enough
          obtain ⟨answer, left, pos, placed⟩ := ih placed' (fewer ▸ Nat.lt_of_succ_lt_succ enough)
          have moved : after.left.after after.left.list.length = s.left.after (t :: rest).length := by
            rw [fewer, behind, Tokens.after_tail]
            rfl
          rw [moved] at left pos
          rw [Tokens.given_cons tokens, Tokens.complete_cons tokens, ← behind, ← answer]
          simp only
          generalize drain bound after = r at left pos placed ⊢
          obtain ⟨result, last⟩ := r
          cases result with
          | error e => exact ⟨rfl, left, pos, placed⟩
          | ok ts => exact ⟨rfl, left, pos, placed⟩

theorem left_length (s : TokenStream) : s.left.list.length < s.input.rest.length + 2 := by
  have short := Tokens.length_ofCursor_le s.input
  cases here : s.current with
  | none =>
      rw [left_fresh here]
      omega
  | some t =>
      rw [left_seen here, List.length_cons]
      omega

end Steps

end TokenStream

-- A mark in the list of all tokens: how many are taken, and where the input stands.
structure Bookmark where
  taken : Nat := 0
  pos : Position := {}

namespace Bookmark

open TokenStream (Call Reply)

variable (all : Tokens)

def answer (m : Bookmark) : Call → Except ParseError Reply × Bookmark
  | .ask .peek => ((all.after m.taken).given.map .token, ⟨m.taken, (all.after m.taken).pos⟩)
  | .ask .atEnd => ((all.after m.taken).given.map fun t => .flag t.isNone, ⟨m.taken, (all.after m.taken).pos⟩)
  | .ask .next => ((all.after m.taken).given.map .token, ⟨m.taken + 1, (all.after m.taken).pos⟩)
  | .round => ((all.after m.taken).given.map .token, ⟨m.taken + 1, (all.after m.taken).pos⟩)
  | .ask .rest =>
      (all.complete.map fun ts => .tokens (ts.drop m.taken),
        ⟨max m.taken all.list.length, (all.after all.list.length).pos⟩)
  | .ask (.fault text) => (.error ((ParseCause.remark text).located m.pos), m)

def used (m : Bookmark) (calls : List Call) : Bookmark := calls.foldl (fun m call => (m.answer all call).2) m

end Bookmark

namespace TokenStream

structure StandsAt (all : Tokens) (m : Bookmark) (s : TokenStream) : Prop where
  left : s.left = all.after m.taken
  pos : s.input.pos = m.pos
  placed : s.AtStop

variable {all : Tokens} {m : Bookmark} {s : TokenStream}

theorem Gives.standsAt {n k : Nat} {r : Except ParseError (Option Token) × TokenStream}
    (gives : Gives (all.after n) (all.after k) r) : StandsAt all ⟨k, (all.after n).pos⟩ r.2 :=
  ⟨gives.left, gives.pos, gives.placed⟩

theorem standsAt_ofSource (source : String) : StandsAt (Tokens.ofSource source) {} (ofSource source) :=
  ⟨rfl, rfl, placed_fresh rfl⟩

theorem StandsAt.respond (standsAt : StandsAt all m s) (call : Call) :
    (s.respond call).1 = (m.answer all call).1 ∧ StandsAt all (m.answer all call).2 (s.respond call).2 := by
  obtain ⟨left, pos, placed⟩ := standsAt
  have taken : s.left.tail = all.after (m.taken + 1) := by rw [left, Tokens.tail_after]
  cases call with
  | round =>
      have gives := round_gives placed
      rw [taken, left] at gives
      exact ⟨congrArg (Except.map Reply.token) gives.answer, gives.standsAt⟩
  | ask request =>
      cases request with
      | next =>
          have gives := next_gives placed
          rw [taken, left] at gives
          exact ⟨congrArg (Except.map Reply.token) gives.answer, gives.standsAt⟩
      | peek =>
          have gives := peek_gives placed
          rw [left] at gives
          exact ⟨congrArg (Except.map Reply.token) gives.answer, gives.standsAt⟩
      | atEnd =>
          have gives := peek_gives placed
          rw [left] at gives
          refine ⟨?_, gives.standsAt⟩
          show (s.peek.1.map Option.isNone).map Reply.flag = _
          rw [gives.answer, Bookmark.answer]
          cases (all.after m.taken).given <;> rfl
      | rest =>
          obtain ⟨answer, behind, pos', placed'⟩ := drain_gives placed (left_length s)
          have last : s.left.after s.left.list.length = all.after (max m.taken all.list.length) := by
            have length : (all.after m.taken).list.length = all.list.length - m.taken := List.length_drop
            rw [left, Tokens.after_after, length]
            congr 1
            omega
          rw [last] at behind pos'
          refine ⟨?_, behind, ?_, placed'⟩
          · show s.rest.1.map Reply.tokens = _
            rw [rest, answer, left, Tokens.complete_after, Bookmark.answer]
            cases all.complete <;> rfl
          · exact pos'.trans (congrArg Tokens.pos (Tokens.after_length (Nat.le_max_right _ _)))
      | fault text =>
          refine ⟨?_, left, pos, placed⟩
          show Except.error ((ParseCause.remark text).located s.input.pos) = _
          rw [pos]
          rfl

theorem StandsAt.used (standsAt : StandsAt all m s) (calls : List Call) :
    StandsAt all (m.used all calls) (s.used calls) := by
  induction calls generalizing m s with
  | nil => exact standsAt
  | cons call calls ih => exact ih (standsAt.respond call).2

end TokenStream

namespace Bookmark

open TokenStream (Call Reply)

variable {all : Tokens} {m : Bookmark}

theorem taken_le_answer (m : Bookmark) (call : Call) : m.taken ≤ (m.answer all call).2.taken := by
  cases call with
  | round => exact Nat.le_succ _
  | ask request =>
      cases request with
      | next => exact Nat.le_succ _
      | rest => exact Nat.le_max_left _ _
      | _ => exact Nat.le_refl _

theorem taken_le_used (m : Bookmark) (calls : List Call) : m.taken ≤ (m.used all calls).taken := by
  induction calls generalizing m with
  | nil => exact Nat.le_refl _
  | cons call calls ih => exact Nat.le_trans (m.taken_le_answer call) (ih _)

end Bookmark

def TokenStream.Call.atLast : Call → Option Reply
  | .ask .peek => some (.token none)
  | .ask .atEnd => some (.flag true)
  | .ask .next => some (.token none)
  | .ask .rest => some (.tokens [])
  | .ask (.fault _) => none
  | .round => some (.token none)

theorem Bookmark.answer_beyond {all : Tokens} {m : Bookmark} (beyond : all.list.length ≤ m.taken)
    {call : TokenStream.Call} {reply : TokenStream.Reply} (last : call.atLast = some reply) :
    (m.answer all call).1 = all.complete.map fun _ => reply := by
  have ended : (all.after m.taken).list = [] := List.drop_of_length_le beyond
  have given : (all.after m.taken).given = all.complete.map fun _ => none := by
    rw [Tokens.given_nil ended, Tokens.complete_after]
    cases all.complete <;> rfl
  cases call with
  | round =>
      cases last
      rw [Bookmark.answer, given]
      cases all.complete <;> rfl
  | ask request =>
      cases request with
      | rest =>
          cases last
          rw [Bookmark.answer]
          cases complete : all.complete with
          | error e => rfl
          | ok tokens =>
              obtain rfl := Tokens.list_of_complete complete
              exact congrArg (fun ts => Except.ok (TokenStream.Reply.tokens ts)) ended
      | fault text => cases last
      | _ =>
          cases last
          rw [Bookmark.answer, given]
          cases all.complete <;> rfl

-- A token stream is as good as the list of all tokens. Whatever has been done with it, it answers as a mark in that list
-- does, which peeking does not move and each taking moves by one; an iteration from the start gives what `tokenize` gives.
-- Once all tokens are taken, whatever else is done, every use of the stream has the answer of the end, or the one error
-- that `tokenize` has, each time.
theorem stream_is_a_bookmark (source : String) :
    (∀ calls call, (((TokenStream.ofSource source).used calls).respond call).1 =
      ((Bookmark.used (.ofSource source) {} calls).answer (.ofSource source) call).1) ∧
    (TokenStream.ofSource source).rest.1 = tokenize source ∧
    ∀ calls, (Tokens.ofSource source).list.length ≤ (Bookmark.used (.ofSource source) {} calls).taken →
      ∀ more call reply, call.atLast = some reply →
        (((TokenStream.ofSource source).used (calls ++ more)).respond call).1 =
          (tokenize source).map fun _ => reply := by
  have standsAt := (TokenStream.standsAt_ofSource source).used
  have same (calls : List TokenStream.Call) (call : TokenStream.Call) := ((standsAt calls).respond call).1
  refine ⟨same, ?_, ?_⟩
  · exact (TokenStream.drain_gives (standsAt []).placed (TokenStream.left_length _)).1
  · intro calls beyond more call reply last
    have further : (Tokens.ofSource source).list.length ≤
        (Bookmark.used (.ofSource source) {} (calls ++ more)).taken := by
      rw [Bookmark.used, List.foldl_append]
      exact Nat.le_trans beyond (Bookmark.taken_le_used _ more)
    rw [same]
    exact Bookmark.answer_beyond further last

def strayBehindComment : String := "a # b\n @"

theorem strayBehindComment_fails_again :
    (((TokenStream.ofSource strayBehindComment).used
      ([.ask .peek, .round] ++ [.ask .next, .ask (.fault "?"), .ask .peek])).respond (.ask .rest)).1 =
        .error ⟨.strayCharacter '@', 2, 1⟩ := by
  have refused : tokenize strayBehindComment = .error ⟨.strayCharacter '@', 2, 1⟩ := by with_unfolding_all rfl
  have taken : (Tokens.ofSource strayBehindComment).list.length ≤
      (Bookmark.used (.ofSource strayBehindComment) {} [.ask .peek, .round]).taken := by with_unfolding_all decide
  obtain ⟨_, _, beyond⟩ := stream_is_a_bookmark strayBehindComment
  rw [beyond _ taken _ _ _ rfl, refused]
  rfl

end Trampoline

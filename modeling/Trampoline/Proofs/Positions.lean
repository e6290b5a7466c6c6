import Trampoline.Proofs.Spelling

set_option autoImplicit false

namespace Trampoline

def lineStart (front : List Char) : Nat := (front.reverse.dropWhile (· != '\n')).length

theorem lineStart_push (front : List Char) (c : Char) :
    lineStart (front ++ [c]) = if c = '\n' then front.length + 1 else lineStart front := by
  by_cases line : c = '\n'
  · simp [lineStart, line]
  · have other : (c != '\n') = true := by simpa using line
    simp [lineStart, line, other]

theorem lineStart_le (front : List Char) : lineStart front ≤ front.length := by
  have short := (List.dropWhile_suffix (fun c => c != '\n') (l := front.reverse)).length_le
  simpa [lineStart] using short

namespace Position

structure Exact (cs : List Char) (p : Position) : Prop where
  line : p.line = 1 + (cs.take p.offset).count '\n'
  column : p.column = p.offset - lineStart (cs.take p.offset)

namespace Exact

variable {cs : List Char} {p : Position}

theorem front (cs : List Char) : Exact cs {} := ⟨rfl, rfl⟩

theorem advance {c : Char} {rest : List Char} (placed : Exact cs p) (here : cs.drop p.offset = c :: rest) :
    Exact cs (p.advance c) := by
  have longer : cs.take (p.offset + 1) = cs.take p.offset ++ [c] := by
    rw [List.take_add, here, List.take_succ_cons, List.take_zero]
  have inside : p.offset < cs.length := by
    refine Nat.lt_of_not_le fun short => ?_
    rw [List.drop_eq_nil_of_le short] at here
    cases here
  have low : lineStart (cs.take p.offset) ≤ p.offset :=
    Nat.le_trans (lineStart_le _) (List.length_take_le _ _)
  obtain ⟨line, column⟩ := placed
  unfold Position.advance
  split
  · rename_i same
    subst same
    refine ⟨?_, ?_⟩
    · simp only [longer, List.count_append, line]
      rfl
    · simp only [longer, lineStart_push, if_true, List.length_take]
      omega
  · rename_i other
    refine ⟨?_, ?_⟩
    · simp only [longer, List.count_append, line, List.count_singleton]
      simp [other]
    · simp only [longer, lineStart_push, if_neg other, column]
      omega

theorem past (placed : Exact cs p) (ended : cs.length ≤ p.offset) : Exact cs p.past := by
  have whole : cs.take (p.offset + 1) = cs.take p.offset := by
    rw [List.take_of_length_le ended, List.take_of_length_le (Nat.le_succ_of_le ended)]
  have low : lineStart (cs.take p.offset) ≤ p.offset :=
    Nat.le_trans (lineStart_le _) (List.length_take_le _ _)
  obtain ⟨line, column⟩ := placed
  refine ⟨?_, ?_⟩
  · simp only [Position.past, whole, line]
  · simp only [Position.past, whole, column]
    omega

theorem after {slice rest : List Char} (placed : Exact cs p) (here : cs.drop p.offset = slice ++ rest) :
    Exact cs (p.after slice) := by
  induction slice generalizing p with
  | nil => exact placed
  | cons c slice ih =>
      refine ih (placed.advance here) ?_
      rw [offset_advance, ← List.drop_drop, here]
      rfl

end Exact

-- Only a comment that nothing ends goes beyond the text, and only by one step.
theorem exact_skipBlanks {cs : List Char} (comment : Bool) (rest : List Char) {p : Position}
    (inside : rest = cs.drop p.offset) (placed : Exact cs p)
    (bound : p.offset ≤ cs.length + (if comment then 0 else 1)) :
    Exact cs (skipBlanks comment rest p).2 ∧ (skipBlanks comment rest p).2.offset ≤ cs.length + 1 := by
  induction rest generalizing comment p with
  | nil =>
      have ended : cs.length ≤ p.offset := List.drop_eq_nil_iff.mp inside.symm
      cases comment with
      | false => exact ⟨placed, bound⟩
      | true => exact ⟨placed.past ended, Nat.succ_le_succ bound⟩
  | cons c rest ih =>
      have next : rest = cs.drop (p.advance c).offset := by
        rw [offset_advance, ← List.drop_drop, ← inside]
        rfl
      have moved := placed.advance inside.symm
      have fits (comment : Bool) : (p.advance c).offset ≤ cs.length + (if comment then 0 else 1) := by
        have some := congrArg List.length inside
        rw [List.length_cons, List.length_drop] at some
        rw [offset_advance]
        omega
      cases comment with
      | true => exact ih _ next moved (fits _)
      | false =>
          simp only [skipBlanks]
          split
          · exact ih _ next moved (fits _)
          split
          · exact ih _ next moved (fits _)
          · exact ⟨placed, bound⟩

end Position

namespace Cursor

structure Tracks (source : String) (c : Cursor) : Prop where
  inside : c.In source
  placed : c.pos.Exact source.toList

variable {source : String} {c : Cursor}

theorem tracks_ofSource (source : String) : (ofSource source).Tracks source := ⟨in_ofSource source, .front _⟩

theorem Tracks.ended (tracks : c.Tracks source) (none : c.rest = []) : source.toList.length ≤ c.pos.offset :=
  List.drop_eq_nil_iff.mp (tracks.inside.symm.trans none)

theorem Tracks.next (tracks : c.Tracks source) : c.next.2.Tracks source := by
  cases here : c.rest with
  | nil =>
      have ended := tracks.ended here
      rw [Cursor.next, here]
      refine ⟨?_, tracks.placed.past ended⟩
      exact (List.drop_eq_nil_of_le (Nat.le_succ_of_le ended)).symm
  | cons x rest =>
      have front := tracks.inside.symm.trans here
      rw [Cursor.next, here]
      refine ⟨?_, tracks.placed.advance front⟩
      rw [In, Position.offset_advance, ← List.drop_drop, front]
      rfl

inductive Request where
  | next
  | peek
  | atEnd
  | lookingAt (text : List Char)
  | fault (text : String)

inductive Reply where
  | char (c : Option Char)
  | flag (b : Bool)

def answer (c : Cursor) : Request → Except ParseError Reply × Cursor
  | .next => (.ok (.char c.next.1), c.next.2)
  | .peek => (.ok (.char c.peek?), c)
  | .atEnd => (.ok (.flag c.atEnd), c)
  | .lookingAt text => (.ok (.flag (c.lookingAt text)), c)
  | .fault text => (.error (c.fault text), c)

def serve (c : Cursor) (requests : List Request) : Cursor := requests.foldl (fun c r => (c.answer r).2) c

theorem Tracks.answer (tracks : c.Tracks source) (request : Request) : (c.answer request).2.Tracks source := by
  cases request with
  | next => exact tracks.next
  | _ => exact tracks

theorem Tracks.serve (tracks : c.Tracks source) (requests : List Request) : (c.serve requests).Tracks source := by
  induction requests generalizing c with
  | nil => exact tracks
  | cons request requests ih => exact ih (tracks.answer request)

theorem fault_answer {request : Request} {e : ParseError} (failed : (c.answer request).1 = .error e) :
    e = e.cause.located (c.answer request).2.pos := by
  cases request with
  | fault text =>
      cases failed
      rfl
  | _ => cases failed

end Cursor

structure Token.Exact (cs : List Char) (t : Token) : Prop where
  start : t.start.Exact cs
  stop : t.stop.Exact cs

section Scanning

variable {source : String} {c : Cursor}

theorem Cursor.Tracks.skipBlanks (tracks : c.Tracks source) (bound : c.pos.offset ≤ source.toList.length + 1) :
    c.skipBlanks.Tracks source ∧ c.skipBlanks.pos.offset ≤ source.toList.length + 1 := by
  obtain ⟨placed, within⟩ := Position.exact_skipBlanks false c.rest tracks.inside tracks.placed bound
  exact ⟨⟨in_skipBlanks tracks.inside, placed⟩, within⟩

theorem Cursor.Tracks.skip {slice behind : List Char} (tracks : c.Tracks source) (here : c.rest = slice ++ behind)
    (some : slice ≠ []) :
    (c.skip slice).Tracks source ∧ (c.skip slice).pos.offset ≤ source.toList.length := by
  have front := tracks.inside.symm.trans here
  refine ⟨⟨in_skip tracks.inside slice, tracks.placed.after front⟩, ?_⟩
  have whole := congrArg List.length front
  have long := List.length_pos_iff.mpr some
  rw [List.length_drop, List.length_append] at whole
  rw [Cursor.skip, Position.offset_after]
  omega

end Scanning

namespace TokenStream

-- The input goes at most one step beyond the source, and the token that was looked at stands in it.
structure Tracks (source : String) (s : TokenStream) : Prop where
  input : s.input.Tracks source
  bound : s.input.pos.offset ≤ source.toList.length + 1
  ahead : ∀ t ∈ s.current, t.Exact source.toList

structure ExactReply {α : Type} (source : String) (tokens : α → List Token) (r : Except ParseError α × TokenStream) :
    Prop where
  stream : r.2.Tracks source
  given : ∀ x, r.1 = .ok x → ∀ t ∈ tokens x, t.Exact source.toList
  place : ∀ e, r.1 = .error e → e = e.cause.located r.2.input.pos

variable {source : String} {s : TokenStream}

theorem tracks_ofSource (source : String) : (ofSource source).Tracks source :=
  ⟨Cursor.tracks_ofSource source, Nat.zero_le _, by simp [ofSource]⟩

namespace ExactReply

variable {α : Type} {tokens : α → List Token}

theorem ok {x : α} (stream : s.Tracks source) (given : ∀ t ∈ tokens x, t.Exact source.toList) :
    ExactReply source tokens (.ok x, s) := by
  refine ⟨stream, fun y same => ?_, fun e failed => ?_⟩
  · cases same
    exact given
  · cases failed

theorem error {e : ParseError} (stream : s.Tracks source) (place : e = e.cause.located s.input.pos) :
    ExactReply source tokens (.error e, s) := by
  refine ⟨stream, fun y same => ?_, fun e' failed => ?_⟩
  · cases same
  · cases failed
    exact place

theorem exact_of_some {t : Token} (sound : ExactReply source Option.toList (.ok (some t), s)) : t.Exact source.toList :=
  sound.given _ rfl t List.mem_cons_self

end ExactReply

theorem Tracks.read (tracks : s.Tracks source) : ExactReply source Option.toList (s.read.1, ⟨s.read.2, none⟩) := by
  obtain ⟨blanks, bound⟩ := tracks.input.skipBlanks tracks.bound
  cases found : s.input.scan with
  | token t after =>
      obtain ⟨slice, munched, start, rfl, stop⟩ := Cursor.scan_token found
      obtain ⟨behind, here, _⟩ := Lexeme.cut_of_munch? munched
      obtain ⟨moved, within⟩ := blanks.skip here (Lexeme.munch?_ne_nil munched)
      have placed : t.Exact source.toList := ⟨start ▸ blanks.placed, stop ▸ moved.placed⟩
      rw [TokenStream.read, found]
      exact .ok ⟨moved, Nat.le_succ_of_le within, by simp⟩ (List.forall_mem_singleton.mpr placed)
  | ended after =>
      obtain ⟨_, rfl⟩ := Cursor.scan_ended found
      rw [TokenStream.read, found]
      exact .ok ⟨blanks, bound, by simp⟩ (by simp)
  | stray c ahead =>
      obtain ⟨_, _, rfl⟩ := Cursor.scan_stray found
      rw [TokenStream.read, found]
      exact .error ⟨blanks, bound, by simp⟩ rfl

theorem Tracks.next (tracks : s.Tracks source) : ExactReply source Option.toList s.next := by
  cases here : s.current with
  | none =>
      rw [TokenStream.next, here]
      exact tracks.read
  | some t =>
      rw [TokenStream.next, here]
      exact .ok ⟨tracks.input, tracks.bound, by simp⟩ (List.forall_mem_singleton.mpr (tracks.ahead t here))

theorem Tracks.peek (tracks : s.Tracks source) : ExactReply source Option.toList s.peek := by
  cases here : s.current with
  | none =>
      have read := tracks.read
      rw [TokenStream.peek, here]
      generalize s.read = r at read ⊢
      obtain ⟨result, input⟩ := r
      cases result with
      | ok found =>
          have given := read.given found rfl
          exact .ok ⟨read.stream.input, read.stream.bound, fun t ahead => given t (Option.mem_toList.mpr ahead)⟩ given
      | error e => exact read
  | some t =>
      rw [TokenStream.peek, here]
      exact .ok tracks (List.forall_mem_singleton.mpr (tracks.ahead t here))

theorem Tracks.atEnd (tracks : s.Tracks source) : ExactReply source (fun _ : Bool => []) s.atEnd := by
  have peeked := tracks.peek
  rw [TokenStream.atEnd]
  generalize s.peek = r at peeked ⊢
  obtain ⟨result, after⟩ := r
  cases result with
  | ok found => exact .ok peeked.stream (by simp)
  | error e => exact .error peeked.stream (peeked.place e rfl)

theorem Tracks.drain (tracks : s.Tracks source) (bound : Nat) : ExactReply source id (drain bound s) := by
  induction bound generalizing s with
  | zero => exact .ok tracks (by simp)
  | succ bound ih =>
      have first := tracks.next
      rw [TokenStream.drain]
      generalize s.next = r at first ⊢
      obtain ⟨result, after⟩ := r
      cases result with
      | error e => exact .error first.stream (first.place e rfl)
      | ok found =>
          cases found with
          | none => exact .ok first.stream (by simp)
          | some t =>
              have others := ih first.stream
              simp only
              generalize TokenStream.drain bound after = r at others ⊢
              obtain ⟨result, last⟩ := r
              cases result with
              | error e => exact .error others.stream (others.place e rfl)
              | ok ts => exact .ok others.stream (List.forall_mem_cons.mpr ⟨first.exact_of_some, others.given ts rfl⟩)

inductive Request where
  | next
  | peek
  | atEnd
  | rest
  | fault (text : String)

inductive Reply where
  | token (t : Option Token)
  | flag (b : Bool)
  | tokens (ts : List Token)

def Reply.given : Reply → List Token
  | .token t => t.toList
  | .flag _ => []
  | .tokens ts => ts

def answer (s : TokenStream) : Request → Except ParseError Reply × TokenStream
  | .next => (s.next.1.map .token, s.next.2)
  | .peek => (s.peek.1.map .token, s.peek.2)
  | .atEnd => (s.atEnd.1.map .flag, s.atEnd.2)
  | .rest => (s.rest.1.map .tokens, s.rest.2)
  | .fault text => (.error (s.fault text), s)

def serve (s : TokenStream) (requests : List Request) : TokenStream := requests.foldl (fun s r => (s.answer r).2) s

theorem ExactReply.map {α β : Type} {tokens : α → List Token} {tokens' : β → List Token} {f : α → β}
    {r : Except ParseError α × TokenStream} (sound : ExactReply source tokens r) (same : ∀ x, tokens' (f x) = tokens x) :
    ExactReply source tokens' (r.1.map f, r.2) := by
  obtain ⟨result, after⟩ := r
  cases result with
  | ok x => exact .ok sound.stream (by rw [same]; exact sound.given x rfl)
  | error e => exact .error sound.stream (sound.place e rfl)

theorem Tracks.answer (tracks : s.Tracks source) (request : Request) :
    ExactReply source Reply.given (s.answer request) := by
  cases request with
  | next => exact tracks.next.map fun _ => rfl
  | peek => exact tracks.peek.map fun _ => rfl
  | atEnd => exact tracks.atEnd.map fun _ => rfl
  | rest => exact (tracks.drain _).map fun _ => rfl
  | fault text => exact .error tracks rfl

theorem Tracks.serve (tracks : s.Tracks source) (requests : List Request) : (s.serve requests).Tracks source := by
  induction requests generalizing s with
  | nil => exact tracks
  | cons request requests ih => exact ih (tracks.answer request).stream

end TokenStream

end Trampoline

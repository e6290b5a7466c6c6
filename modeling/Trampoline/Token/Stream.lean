import Trampoline.Token.Lexer

/-!
Two views of the tokens of a source: a lazy stream that reads one token ahead, and the list of all
tokens with what ends it.
-/

set_option autoImplicit false

namespace Trampoline

structure TokenStream where
  input : Cursor
  current : Option Token := none

namespace TokenStream

def ofSource (source : String) : TokenStream := { input := .ofSource source }

def read (s : TokenStream) : Except ParseError (Option Token) × Cursor :=
  match s.input.scan with
  | .token t after => (.ok (some t), after)
  | .ended after => (.ok none, after)
  | .stray c ahead => (.error ((ParseCause.strayCharacter c).located ahead.pos), ahead)

def peek (s : TokenStream) : Except ParseError (Option Token) × TokenStream :=
  match s.current with
  | some t => (.ok (some t), s)
  | none =>
      match s.read with
      | (.ok found, input) => (.ok found, ⟨input, found⟩)
      | (.error e, input) => (.error e, ⟨input, none⟩)

def next (s : TokenStream) : Except ParseError (Option Token) × TokenStream :=
  match s.current with
  | some t => (.ok (some t), { s with current := none })
  | none =>
      let (found, input) := s.read
      (found, ⟨input, none⟩)

def atEnd (s : TokenStream) : Except ParseError Bool × TokenStream :=
  let (found, s) := s.peek
  (found.map Option.isNone, s)

def fault (s : TokenStream) (text : String) : ParseError := s.input.fault text

/-- Takes all remaining tokens, at most as many as the bound. -/
def drain : Nat → TokenStream → Except ParseError (List Token) × TokenStream
  | 0, s => (.ok [], s)
  | bound + 1, s =>
      match s.next with
      | (.ok (some t), s) =>
          match drain bound s with
          | (.ok ts, s) => (.ok (t :: ts), s)
          | (.error e, s) => (.error e, s)
      | (.ok none, s) => (.ok [], s)
      | (.error e, s) => (.error e, s)

/-- A token takes at least one character, and one more token may have been looked at. -/
def rest (s : TokenStream) : Except ParseError (List Token) × TokenStream :=
  drain (s.input.rest.length + 2) s

end TokenStream

inductive SourceEnd where
  | ended (pos : Position)
  | stray (c : Char) (pos : Position)

/-- The tokens of a source up to its end or to the first character that starts no token. -/
structure Tokens where
  list : List Token
  ending : SourceEnd

namespace Tokens

def ofCursor (cursor : Cursor) : Tokens :=
  match _found : cursor.scan with
  | .token t after =>
      let more := ofCursor after
      ⟨t :: more.list, more.ending⟩
  | .ended after => ⟨[], .ended after.pos⟩
  | .stray c ahead => ⟨[], .stray c ahead.pos⟩
termination_by cursor.rest.length
decreasing_by exact Cursor.length_scan_lt ‹_›

def ofSource (source : String) : Tokens := ofCursor (.ofSource source)

/-- All tokens, when the whole source splits into tokens. -/
def complete (ts : Tokens) : Except ParseError (List Token) :=
  match ts.ending with
  | .ended _ => .ok ts.list
  | .stray c pos => .error ((ParseCause.strayCharacter c).located pos)

end Tokens

def tokenize (source : String) : Except ParseError (List Token) := (Tokens.ofSource source).complete

end Trampoline

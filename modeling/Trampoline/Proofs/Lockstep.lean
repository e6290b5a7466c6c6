import Trampoline.Proofs.GrammarReaders

set_option autoImplicit false

namespace Trampoline

inductive Bracket where
  | binders
  | group
  | block
  | branch
deriving DecidableEq, Repr

-- What reading from the left knows: whether an operand has just ended, whether the list of a function or
-- of a let is still to come, and the open brackets from the innermost outwards.
structure Reading where
  after : Bool := false
  head : Bool := false
  opened : List Bracket := []

namespace Reading

def close (r : Reading) : Reading := ⟨r.opened.head? != some .binders, false, r.opened.tail⟩

-- A block that follows an operand can only be a branch without `then`.
def next (r : Reading) : Lexeme → Reading
  | .punctuation '(' => ⟨false, false, (if r.head then .binders else .group) :: r.opened⟩
  | .punctuation '\x7b' => ⟨false, false, (if r.after then .branch else .block) :: r.opened⟩
  | .punctuation ')' => r.close
  | .punctuation '\x7d' => r.close
  | .keyword .lambda => ⟨false, true, r.opened⟩
  | .keyword .lambdaSign => ⟨false, true, r.opened⟩
  | .keyword .let_ => ⟨false, true, r.opened⟩
  | .keyword .true_ => ⟨true, false, r.opened⟩
  | .keyword .false_ => ⟨true, false, r.opened⟩
  | .name _ => ⟨!r.head, r.head, r.opened⟩
  | .number _ => ⟨true, false, r.opened⟩
  | .text _ => ⟨true, false, r.opened⟩
  | _ => ⟨false, false, r.opened⟩

def extends? : Option Lexeme → Bool
  | some (.operator _) => true
  | some (.punctuation '(') => true
  | _ => false

def branchesEnd (r : Reading) : List Lexeme → Bool
  | [] => true
  | l :: ls =>
      !(Tokens.isMark '\x7d' (some l) && r.opened.head? == some .branch && extends? ls.head?) &&
        (r.next l).branchesEnd ls

def before (opened : List Bracket) : Reading := ⟨false, false, opened⟩

def beyond (opened : List Bracket) : Reading := ⟨true, false, opened⟩

def heading (opened : List Bracket) : Reading := ⟨false, true, opened⟩

end Reading

namespace Lexeme

variable {l : Lexeme} {terminal : Grammar.Terminal}

def ofTerminal? : Grammar.Terminal → Option Lexeme
  | .leftParen => some (.punctuation '(')
  | .rightParen => some (.punctuation ')')
  | .leftBrace => some (.punctuation '\x7b')
  | .rightBrace => some (.punctuation '\x7d')
  | .comma => some (.punctuation ',')
  | .semicolon => some (.punctuation ';')
  | .equal => some (.operator "=")
  | .true_ => some (.keyword .true_)
  | .false_ => some (.keyword .false_)
  | .if_ => some (.keyword .if_)
  | .then_ => some (.keyword .then_)
  | .else_ => some (.keyword .else_)
  | .lambda => some (.keyword .lambda)
  | .lambdaSign => some (.keyword .lambdaSign)
  | .let_ => some (.keyword .let_)
  | _ => none

theorem eq_of_terminal {l' : Lexeme} (known : l.terminal? = some terminal)
    (fixed : ofTerminal? terminal = some l') : l = l' := by
  cases l with
  | punctuation mark =>
      change ofMark? mark = some terminal at known
      unfold ofMark? at known
      split at known <;> cases known <;> cases fixed <;> rfl
  | operator symbol =>
      change ofOperator? symbol = some terminal at known
      unfold ofOperator? at known
      split at known <;> cases known <;> cases fixed
      rfl
  | keyword word =>
      cases known
      cases word <;> cases fixed <;> rfl
  | _ =>
      cases known
      cases fixed

theorem terminal?_mark {mark : Char} (known : ofMark? mark = some terminal) :
    l.terminal? = some terminal ↔ l = .punctuation mark := by
  have fixed : ofTerminal? terminal = some (.punctuation mark) := by
    unfold ofMark? at known
    split at known <;> cases known <;> rfl
  constructor
  · intro found
    exact eq_of_terminal found fixed
  · rintro rfl
    exact known

theorem terminal?_keyword {word : Keyword} : l.terminal? = some word.terminal ↔ l = .keyword word := by
  constructor
  · intro found
    exact eq_of_terminal found (by cases word <;> rfl)
  · rintro rfl
    rfl

theorem valued_of_terminal (known : l.terminal? = some terminal) :
    (terminal = .name → ∃ x, l = .name x) ∧ (terminal = .number → ∃ x, l = .number x) ∧
      (terminal = .text → ∃ x, l = .text x) := by
  cases l with
  | punctuation mark =>
      change ofMark? mark = some terminal at known
      unfold ofMark? at known
      split at known <;> cases known <;> simp
  | operator symbol =>
      change ofOperator? symbol = some terminal at known
      unfold ofOperator? at known
      split at known <;> cases known <;> simp
  | keyword word => cases word <;> cases known <;> simp [Keyword.terminal]
  | _ =>
      cases known
      simp

theorem precedence?_terminal (known : l.terminal? = some terminal) :
    Grammar.precedence? terminal =
      match l with
      | .operator symbol => Descent.precedence? symbol
      | _ => none := by
  cases l with
  | operator symbol =>
      change ofOperator? symbol = some terminal at known
      unfold ofOperator? at known
      split at known <;> cases known <;> rfl
  | punctuation mark =>
      change ofMark? mark = some terminal at known
      unfold ofMark? at known
      split at known <;> cases known <;> rfl
  | keyword word => cases word <;> cases known <;> rfl
  | _ =>
      cases known
      rfl

theorem combine_terminal {symbol : String} {slice : List Char} (known : ofOperator? symbol = some terminal)
    (bears : symbol = String.ofList slice) :
    Grammar.combine terminal slice = Descent.combine symbol := by
  have equal : terminal = .equal ↔ symbol = "=" := by
    unfold ofOperator? at known
    split at known <;> cases known <;> simp
  funext left right
  by_cases same : symbol = "="
  · simp [Grammar.combine, Descent.combine, equal.mpr same, same]
  · have other : terminal ≠ .equal := fun h => same (equal.mp h)
    simp [Grammar.combine, Descent.combine, other, same, ← bears]

end Lexeme

namespace Grammar

inductive Agrees (ts : Tokens) : Lookahead → Prop where
  | terminal {l : Lexeme} {found : Located} : ts.Ahead l → l.terminal? = some found.terminal →
      l.Bears found.text → Agrees ts (.terminal found)
  | ended {last : Position} : ts.peek = .ok none → Agrees ts (.ended last)

namespace Agrees

variable {ts : Tokens} {s : State} {l : Lexeme}

theorem found (agrees : Agrees ts s.ahead) (ahead : ts.Ahead l) :
    ∃ found, s.ahead = .terminal found ∧ l.terminal? = some found.terminal ∧ l.Bears found.text := by
  cases same : s.ahead with
  | terminal found =>
      rw [same] at agrees
      cases agrees with
      | terminal ahead' known bears =>
          cases ahead.symm.trans ahead'
          exact ⟨found, rfl, known, bears⟩
  | ended last =>
      rw [same] at agrees
      cases agrees with
      | ended none => cases ahead.symm.trans none

theorem terminal?_eq (agrees : Agrees ts s.ahead) (ahead : ts.Ahead l) : s.terminal? = l.terminal? := by
  obtain ⟨found, same, known, _⟩ := agrees.found ahead
  rw [State.terminal?, same, known]

theorem text (agrees : Agrees ts s.ahead) (ahead : ts.Ahead l) : l.Bears s.text := by
  obtain ⟨found, same, _, bears⟩ := agrees.found ahead
  rw [State.text, same]
  exact bears

theorem lexeme (agrees : Agrees ts s.ahead) {terminal : Terminal} (here : s.terminal? = some terminal) :
    ∃ l, ts.Ahead l ∧ l.terminal? = some terminal := by
  unfold State.terminal? at here
  generalize s.ahead = ahead at agrees here
  cases agrees with
  | terminal ahead known _ =>
      cases here
      exact ⟨_, ahead, known⟩
  | ended => cases here

theorem mark (agrees : Agrees ts s.ahead) {mark : Char} {terminal : Terminal}
    (known : Lexeme.ofMark? mark = some terminal) :
    s.terminal? = some terminal ↔ ts.Ahead (.punctuation mark) := by
  constructor
  · intro here
    obtain ⟨l, ahead, same⟩ := agrees.lexeme here
    exact (Lexeme.terminal?_mark known).mp same ▸ ahead
  · intro ahead
    exact (agrees.terminal?_eq ahead).trans known

theorem keyword (agrees : Agrees ts s.ahead) (word : Keyword) :
    s.terminal? = some word.terminal ↔ ts.Ahead (.keyword word) := by
  constructor
  · intro here
    obtain ⟨l, ahead, same⟩ := agrees.lexeme here
    exact Lexeme.terminal?_keyword.mp same ▸ ahead
  · intro ahead
    exact agrees.terminal?_eq ahead

theorem none_iff (agrees : Agrees ts s.ahead) : s.terminal? = none ↔ ts.peek = .ok none := by
  unfold State.terminal?
  generalize s.ahead = ahead at agrees
  cases agrees with
  | terminal ahead _ _ =>
      have some : ts.peek = _ := ahead
      simp [some]
  | ended none => simp [none]

theorem peek (agrees : Agrees ts s.ahead) : ∃ ahead, ts.peek = .ok ahead := by
  generalize s.ahead = ahead at agrees
  cases agrees with
  | terminal ahead => exact ⟨_, ahead⟩
  | ended none => exact ⟨_, none⟩

theorem levelAbove? (agrees : Agrees ts s.ahead) (floor : Nat) (ahead : ts.Ahead l) :
    Grammar.levelAbove? floor s.ahead = Descent.levelAbove? floor l := by
  obtain ⟨found, same, known, _⟩ := agrees.found ahead
  simp only [same, Grammar.levelAbove?, Lexeme.precedence?_terminal known]
  cases l <;> rfl

theorem operator (agrees : Agrees ts s.ahead) {found : Located} {level : Nat} (ahead : s.ahead = .terminal found)
    (known : precedence? found.terminal = some level) :
    ∃ symbol, ts.Ahead (.operator symbol) ∧ Descent.precedence? symbol = some level ∧
      combine found.terminal found.text = Descent.combine symbol := by
  rw [ahead] at agrees
  cases agrees with
  | @terminal l _ here terminal bears =>
      rw [Lexeme.precedence?_terminal terminal] at known
      cases l with
      | operator symbol => exact ⟨symbol, here, known, Lexeme.combine_terminal terminal bears⟩
      | _ => cases known

theorem at_end (agrees : Agrees ts s.ahead) (none : ts.peek = .ok none) : ∃ last, s.ahead = .ended last := by
  generalize s.ahead = ahead at agrees
  cases agrees with
  | terminal ahead => cases ahead.symm.trans none
  | ended => exact ⟨_, rfl⟩

end Agrees

-- Both front ends stand before the same token, and no branch among the tokens from here on is followed by
-- what would go on with it.
structure Together (source : String) (r : Reading) (ts : Tokens) (s : State) : Prop where
  agrees : Agrees ts s.ahead
  cursor : ∀ t rest, ts.list = t :: rest → Tokens.ofCursor s.cursor = ts.tail
  inside : s.cursor.In source
  clean : r.branchesEnd (ts.list.map Token.lexeme) = true

namespace Together

variable {source : String} {r : Reading} {ts : Tokens} {s : State} {l : Lexeme}

theorem clean_tail (together : Together source r ts s) (ahead : ts.Ahead l) :
    (r.next l).branchesEnd (ts.tail.list.map Token.lexeme) = true := by
  obtain ⟨t, rest, tokens, rfl⟩ := Tokens.ahead_iff.mp ahead
  have clean := together.clean
  simp only [tokens, List.map_cons, Reading.branchesEnd, Bool.and_eq_true] at clean
  simpa [Tokens.tail, tokens] using clean.2

theorem branch_ends (together : Together source r ts s) (ahead : ts.Ahead (.punctuation '\x7d'))
    {opened : List Bracket} (inside : r.opened = .branch :: opened) {l' : Lexeme} (behind : ts.tail.Ahead l') :
    Reading.extends? (some l') = false := by
  obtain ⟨t, rest, tokens, closes⟩ := Tokens.ahead_iff.mp ahead
  obtain ⟨t', rest', tokens', rfl⟩ := Tokens.ahead_iff.mp behind
  have tail : rest = t' :: rest' := by simpa [Tokens.tail, tokens] using tokens'
  have clean := together.clean
  simp only [tokens, tail, List.map_cons, Reading.branchesEnd, closes, inside, Tokens.isMark,
    List.head?_cons, Bool.and_eq_true] at clean
  simpa using clean.1

end Together

structure Delimiters (stop separator : Char) (stop' separator' : Terminal) (next after : Context) : Prop where
  stopped : Lexeme.ofMark? stop = some stop'
  separated : Lexeme.ofMark? separator = some separator'
  apart : separator' ≠ stop'
  none : next.admits (.punctuation stop) = true
  last : after.admits (.punctuation stop) = true
  more : after.admits (.punctuation separator) = true
  closes : ∀ r : Reading, r.next (.punctuation stop) = r.close
  again : ∀ r : Reading, r.next (.punctuation separator) = .before r.opened

theorem parentheses {next after : Context} (none : next.admits (.punctuation ')') = true)
    (last : after.admits (.punctuation ')') = true) (more : after.admits (.punctuation ',') = true) :
    Delimiters ')' ',' .rightParen .comma next after :=
  ⟨rfl, rfl, by decide, none, last, more, fun _ => rfl, fun _ => rfl⟩

theorem braces : Delimiters '\x7d' ';' .rightBrace .semicolon .operand .afterOperand :=
  ⟨rfl, rfl, by decide, rfl, rfl, rfl, fun _ => rfl, fun _ => rfl⟩

end Grammar

end Trampoline

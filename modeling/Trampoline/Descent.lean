import Trampoline.Expr.Basic
import Trampoline.Token.Stream

/-!
The descent front end: operands are read by recursive descent and operators by precedence climbing,
over a list of tokens and without going back.
-/

set_option autoImplicit false

namespace Trampoline

namespace Tokens

/-- Where the input stands once the next token has been looked at. -/
def pos (ts : Tokens) : Position :=
  match ts.list, ts.ending with
  | t :: _, _ => t.stop
  | [], .ended p => p
  | [], .stray _ p => p

def fault {α : Type} (ts : Tokens) (cause : ParseCause) : Except ParseError α :=
  .error (cause.located ts.pos)

def peek (ts : Tokens) : Except ParseError (Option Lexeme) :=
  match ts.list, ts.ending with
  | t :: _, _ => .ok (some t.lexeme)
  | [], .ended _ => .ok none
  | [], .stray c _ => ts.fault (.strayCharacter c)

def tail (ts : Tokens) : Tokens := { ts with list := ts.list.tail }

def isMark (mark : Char) : Option Lexeme → Bool
  | some (.punctuation c) => c == mark
  | _ => false

def isKeyword (word : Keyword) : Option Lexeme → Bool
  | some (.keyword k) => k == word
  | _ => false

def takeMark (mark : Char) (ts : Tokens) : Except ParseError Tokens := do
  if isMark mark (← ts.peek) then return ts.tail else ts.fault (.expectedMark mark)

def takeKeyword (word : Keyword) (ts : Tokens) : Except ParseError Tokens := do
  if isKeyword word (← ts.peek) then return ts.tail else ts.fault (.expectedKeyword word)

end Tokens

namespace Descent

/-- A reader takes tokens from the front and leaves the rest. -/
abbrev Reader (α : Type) := Tokens → Except ParseError (α × Tokens)

/-- Every level associates to the left. -/
def precedence? : String → Option Nat
  | "=" => some 1
  | "||" => some 2
  | "&&" => some 3
  | "<" => some 7
  | ">" => some 7
  | "<=" => some 7
  | ">=" => some 7
  | "==" => some 7
  | "!=" => some 7
  | "+" => some 10
  | "-" => some 10
  | "*" => some 20
  | "/" => some 20
  | "%" => some 20
  | _ => none

def combine (symbol : String) (left right : Expr) : Expr :=
  if symbol = "=" then .assign left right else .binary symbol left right

section Lists

variable {α : Type} (stop separator : Char) (item : Reader α)

/-- Items up to the closing mark, which is left; a separator may also follow the last item. -/
def itemsFrom : Nat → Bool → Reader (List α)
  | 0, _, ts => ts.fault .tooDeep
  | bound + 1, first, ts => do
      match ← ts.peek with
      | none => return ([], ts)
      | some lexeme =>
          if Tokens.isMark stop (some lexeme) then return ([], ts)
          let ts ← if first then pure ts else ts.takeMark separator
          if Tokens.isMark stop (← ts.peek) then return ([], ts)
          let (x, ts) ← item ts
          let (xs, ts) ← itemsFrom bound false ts
          return (x :: xs, ts)

def delimited (start : Char) (bound : Nat) : Reader (List α) := fun ts => do
  let ts ← ts.takeMark start
  let (xs, ts) ← itemsFrom stop separator item bound true ts
  let ts ← ts.takeMark stop
  return (xs, ts)

end Lists

def name : Reader String := fun ts => do
  match ← ts.peek with
  | some (.name x) => return (x, ts.tail)
  | _ => ts.fault .expectedName

def name? : Reader (Option String) := fun ts => do
  match ← ts.peek with
  | some (.name x) => return (some x, ts.tail)
  | _ => return (none, ts)

section Forms

variable (expression : Reader Expr) (bound : Nat)

def binding : Reader Binding := fun ts => do
  let (x, ts) ← name ts
  match ← ts.peek with
  | some (.operator "=") =>
      let (init, ts) ← expression ts.tail
      return (.mk x init, ts)
  | other => ts.fault (.expectedEquals ((other.map Lexeme.value).getD ""))

def group : Reader Expr := fun ts => do
  let ts ← ts.takeMark '('
  let (e, ts) ← expression ts
  let ts ← ts.takeMark ')'
  return (e, ts)

def block : Reader Expr := fun ts => do
  let (items, ts) ← delimited '\x7d' ';' expression '\x7b' bound ts
  return (.block items, ts)

/-- The keyword `then` may be left out before a brace. -/
def conditional : Reader Expr := fun ts => do
  let ts ← ts.takeKeyword .if_
  let (test, ts) ← expression ts
  let ts ← if Tokens.isMark '\x7b' (← ts.peek) then pure ts else ts.takeKeyword .then_
  let (yes, ts) ← expression ts
  if Tokens.isKeyword .else_ (← ts.peek) then
    let (no, ts) ← expression ts.tail
    return (.cond test yes no, ts)
  return (.cond test yes .hole, ts)

def function : Reader Expr := fun ts => do
  let (self, ts) ← name? ts.tail
  let (params, ts) ← delimited ')' ',' name '(' bound ts
  let (body, ts) ← expression ts
  return (.lambda params body self, ts)

def letForm : Reader Expr := fun ts => do
  let (self, ts) ← name? ts.tail
  let (bindings, ts) ← delimited ')' ',' (binding expression) '(' bound ts
  let (body, ts) ← expression ts
  match self with
  | some x => return (.namedLet x bindings body, ts)
  | none => return (.letIn bindings body, ts)

def atomForm : Reader Expr := fun ts => do
  match ← ts.peek with
  | none => ts.fault .unexpectedEnd
  | some (.punctuation '(') => group expression ts
  | some (.punctuation '\x7b') => block expression bound ts
  | some (.keyword .if_) => conditional expression ts
  | some (.keyword .true_) => return (.bool true, ts.tail)
  | some (.keyword .false_) => return (.bool false, ts.tail)
  | some (.keyword .lambda) => function expression bound ts
  | some (.keyword .lambdaSign) => function expression bound ts
  | some (.keyword .let_) => letForm expression bound ts
  | some (.name x) => return (.var x, ts.tail)
  | some (.number x) => return (.num x, ts.tail)
  | some (.text s) => return (.str s, ts.tail)
  | some lexeme => ts.fault (.unexpectedLexeme lexeme)

end Forms

mutual

def expression : Nat → Reader Expr
  | 0, ts => ts.fault .tooDeep
  | bound + 1, ts => do
      let (left, ts) ← operand bound ts
      operators bound left 0 ts

def operators : Nat → Expr → Nat → Reader Expr
  | 0, _, _, ts => ts.fault .tooDeep
  | bound + 1, left, floor, ts => do
      match ← ts.peek with
      | some (.operator symbol) =>
          match precedence? symbol with
          | some level =>
              if floor < level then
                let (right, ts) ← operand bound ts.tail
                let (right, ts) ← operators bound right level ts
                operators bound (combine symbol left right) floor ts
              else return (left, ts)
          | none => return (left, ts)
      | _ => return (left, ts)

def operand : Nat → Reader Expr
  | 0, ts => ts.fault .tooDeep
  | bound + 1, ts => do
      let (e, ts) ← atom bound ts
      calls bound e ts

def calls : Nat → Expr → Reader Expr
  | 0, _, ts => ts.fault .tooDeep
  | bound + 1, func, ts => do
      if Tokens.isMark '(' (← ts.peek) then
        let (args, ts) ← delimited ')' ',' (expression bound) '(' bound ts
        calls bound (.call func args) ts
      else return (func, ts)

def atom : Nat → Reader Expr
  | 0, ts => ts.fault .tooDeep
  | bound + 1, ts => atomForm (expression bound) bound ts

end

/-- Expressions up to the end of the input, with a semicolon between any two. -/
def sequence : Nat → Tokens → Except ParseError (List Expr)
  | 0, ts => ts.fault .tooDeep
  | bound + 1, ts => do
      if (← ts.peek).isNone then return []
      let (e, ts) ← expression bound ts
      if (← ts.peek).isNone then return [e]
      let ts ← ts.takeMark ';'
      let es ← sequence bound ts
      return e :: es

/-- An expression nests at most three readers for each token it takes. -/
def boundFor (ts : Tokens) : Nat := 4 * ts.list.length + 4

def program (ts : Tokens) : Except ParseError Expr :=
  (sequence (boundFor ts) ts).map .prog

def parse (source : String) : Except ParseError Expr := program (.ofSource source)

end Descent

end Trampoline

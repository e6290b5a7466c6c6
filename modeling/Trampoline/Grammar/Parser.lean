import Trampoline.Expr.Basic
import Trampoline.Grammar.Lexer

/-!
The grammar-driven front end. Operators form left-associative levels; the bodies of functions, of
`let` and of branches extend as far as they can, except that the branch of a conditional without
`then` is exactly its block.
-/

set_option autoImplicit false

namespace Trampoline.Grammar

/-- The terminal ahead and the cursor after it, with the terminals taken so far, the newest first. -/
structure State where
  ahead : Lookahead
  cursor : Cursor
  taken : List Located := []

abbrev Reader (α : Type) := State → Except ParseError (α × State)

namespace State

def ofSource (source : String) : Except ParseError State := do
  let (ahead, cursor) ← look .operand (.ofSource source) {}
  return { ahead := ahead, cursor := cursor }

def terminal? (s : State) : Option Terminal :=
  match s.ahead with
  | .terminal found => some found.terminal
  | .ended _ => none

def text (s : State) : List Char :=
  match s.ahead with
  | .terminal found => found.text
  | .ended _ => []

def place (s : State) : Position :=
  match s.ahead with
  | .terminal found => found.start
  | .ended last => last

def shift (context : Context) (s : State) : Except ParseError State := do
  let (ahead, cursor) ← look context s.cursor s.place
  match s.ahead with
  | .terminal found => return ⟨ahead, cursor, found :: s.taken⟩
  | .ended _ => return ⟨ahead, cursor, s.taken⟩

def take (terminal : Terminal) (context : Context) (s : State) : Except ParseError State :=
  if s.terminal? = some terminal then s.shift context else unexpected s.ahead

end State

def precedence? : Terminal → Option Nat
  | .equal => some 1
  | .orOp => some 2
  | .andOp => some 3
  | .compareOp => some 7
  | .addOp => some 10
  | .mulOp => some 20
  | _ => none

def combine (terminal : Terminal) (symbol : List Char) (left right : Expr) : Expr :=
  if terminal = .equal then .assign left right else .binary (String.ofList symbol) left right

/-- The characters of a literal: a backslash keeps the next one as it is. -/
def literalText (slice : List Char) : String := String.ofList (Lexeme.unescape (slice.drop 1))

def word (s : State) : String := String.ofList s.text

section Lists

variable {α : Type} (stop separator : Terminal) (next : Context) (item : Reader α)

/-- Items up to the closing terminal, which is left. -/
def itemsFrom : Nat → Reader (List α)
  | 0, s => fault .tooDeep s.place
  | bound + 1, s => do
      if s.terminal? = some stop then return ([], s)
      let (x, s) ← item s
      if s.terminal? = some stop then return ([x], s)
      let s ← s.take separator next
      let (xs, s) ← itemsFrom bound s
      return (x :: xs, s)

end Lists

section Forms

variable (expression : Reader Expr) (bound : Nat)

def arguments : Reader (List Expr) := fun s => do
  let s ← s.take .leftParen .operand
  let (args, s) ← itemsFrom .rightParen .comma .operand expression bound s
  let s ← s.take .rightParen .afterOperand
  return (args, s)

def block : Reader Expr := fun s => do
  let s ← s.take .leftBrace .operand
  let (items, s) ← itemsFrom .rightBrace .semicolon .operand expression bound s
  let s ← s.take .rightBrace .afterOperand
  return (.block items, s)

def group : Reader Expr := fun s => do
  let s ← s.take .leftParen .operand
  let (e, s) ← expression s
  let s ← s.take .rightParen .afterOperand
  return (e, s)

def alternative : Reader Expr := fun s => do
  if s.terminal? = some .else_ then
    let s ← s.shift .operand
    expression s
  else return (.hole, s)

def conditional : Reader Expr := fun s => do
  let s ← s.take .if_ .operand
  let (test, s) ← expression s
  let (yes, s) ←
    if s.terminal? = some .leftBrace then block expression bound s
    else do
      let s ← s.take .then_ .operand
      expression s
  let (no, s) ← alternative expression s
  return (.cond test yes no, s)

def selfName : Reader (Option String) := fun s => do
  if s.terminal? = some .name then
    let next ← s.shift .binderOpen
    return (some (word s), next)
  else return (none, s)

def param : Reader String := fun s => do
  let next ← s.take .name .afterParam
  return (word s, next)

def binding : Reader Binding := fun s => do
  let next ← s.take .name .afterVariable
  let next ← next.take .equal .operand
  let (init, next) ← expression next
  return (.mk (word s) init, next)

def function : Reader Expr := fun s => do
  let s ← s.shift .binderHead
  let (self, s) ← selfName s
  let s ← s.take .leftParen .listItem
  let (params, s) ← itemsFrom .rightParen .comma .listItem param bound s
  let s ← s.take .rightParen .operand
  let (body, s) ← expression s
  return (.lambda params body self, s)

def letForm : Reader Expr := fun s => do
  let s ← s.shift .binderHead
  let (self, s) ← selfName s
  let s ← s.take .leftParen .listItem
  let (bindings, s) ← itemsFrom .rightParen .comma .listItem (binding expression) bound s
  let s ← s.take .rightParen .operand
  let (body, s) ← expression s
  match self with
  | some x => return (.namedLet x bindings body, s)
  | none => return (.letIn bindings body, s)

def leaf (e : Expr) : Reader Expr := fun s => do
  let next ← s.shift .afterOperand
  return (e, next)

def atomForm : Reader Expr := fun s =>
  match s.terminal? with
  | some .leftParen => group expression s
  | some .leftBrace => block expression bound s
  | some .if_ => conditional expression bound s
  | some .lambda => function expression bound s
  | some .lambdaSign => function expression bound s
  | some .let_ => letForm expression bound s
  | some .number => leaf (.num (Decimal.ofLiteral s.text)) s
  | some .text => leaf (.str (literalText s.text)) s
  | some .true_ => leaf (.bool true) s
  | some .false_ => leaf (.bool false) s
  | some .name => leaf (.var (word s)) s
  | _ => unexpected s.ahead

end Forms

mutual

def expression : Nat → Reader Expr
  | 0, s => fault .tooDeep s.place
  | bound + 1, s => do
      let (left, s) ← operand bound s
      operators bound left 0 s

def operators : Nat → Expr → Nat → Reader Expr
  | 0, _, _, s => fault .tooDeep s.place
  | bound + 1, left, floor, s => do
      match s.ahead with
      | .terminal found =>
          match precedence? found.terminal with
          | some level =>
              if floor < level then
                let s ← s.shift .operand
                let (right, s) ← operand bound s
                let (right, s) ← operators bound right level s
                operators bound (combine found.terminal found.text left right) floor s
              else return (left, s)
          | none => return (left, s)
      | .ended _ => return (left, s)

def operand : Nat → Reader Expr
  | 0, s => fault .tooDeep s.place
  | bound + 1, s => do
      let (e, s) ← atom bound s
      calls bound e s

def calls : Nat → Expr → Reader Expr
  | 0, _, s => fault .tooDeep s.place
  | bound + 1, func, s => do
      if s.terminal? = some .leftParen then
        let (args, s) ← arguments (expression bound) bound s
        calls bound (.call func args) s
      else return (func, s)

def atom : Nat → Reader Expr
  | 0, s => fault .tooDeep s.place
  | bound + 1, s => atomForm (expression bound) bound s

end

/-- Expressions up to the end of the input, with a semicolon between any two. -/
def sequence : Nat → Reader (List Expr)
  | 0, s => fault .tooDeep s.place
  | bound + 1, s => do
      if s.terminal?.isNone then return ([], s)
      let (e, s) ← expression bound s
      if s.terminal?.isNone then return ([e], s)
      let s ← s.take .semicolon .operand
      let (es, s) ← sequence bound s
      return (e :: es, s)

/-- An expression nests at most three readers for each character it takes. -/
def boundFor (source : String) : Nat := 4 * source.length + 4

def read (source : String) : Except ParseError (Expr × List Located) := do
  let s ← State.ofSource source
  let (es, s) ← sequence (boundFor source) s
  return (.prog es, s.taken.reverse)

def parse (source : String) : Except ParseError Expr := (read source).map Prod.fst

end Trampoline.Grammar

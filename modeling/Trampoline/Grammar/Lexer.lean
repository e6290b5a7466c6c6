import Trampoline.Token.Lexer

/-!
Lexing for the grammar-driven front end: which terminals are recognised depends on where the parser
stands.
-/

set_option autoImplicit false

namespace Trampoline.Grammar

/-- Where the parser stands: before an operand, after one, or inside the head of a binder. -/
inductive Context where
  | operand
  | afterOperand
  | binderHead
  | binderOpen
  | listItem
  | afterParam
  | afterVariable
deriving DecidableEq, Repr

def isNameStart (c : Char) : Bool :=
  ('a' ≤ c && c ≤ 'z') || ('A' ≤ c && c ≤ 'Z') || c == 'λ' || c == '_'

def isNameChar (c : Char) : Bool :=
  isNameStart c || "?!-<>=".toList.contains c || Decimal.isDigit c

abbrev Match := Terminal × List Char

/-- The name `call/cc` comes first, whatever follows it. -/
def nameSlice? (cs : List Char) : Option (List Char) :=
  if "call/cc".toList.isPrefixOf cs then some "call/cc".toList
  else if cs.head?.any isNameStart then some (cs.takeWhile isNameChar)
  else none

def numberSlice? (cs : List Char) : Option (List Char) :=
  if cs.head?.any Decimal.isDigit then some (Lexeme.numberSlice cs) else none

/-- What follows an opening quote, through the closing quote. -/
def closedSlice? : List Char → Option (List Char)
  | [] => none
  | ['\\'] => none
  | '\\' :: c :: cs => (closedSlice? cs).map fun slice => '\\' :: c :: slice
  | c :: cs => if c = '"' then some [c] else (closedSlice? cs).map (c :: ·)

def textSlice? : List Char → Option (List Char)
  | '"' :: cs => (closedSlice? cs).map ('"' :: ·)
  | _ => none

def operandWords : List (String × Terminal) :=
  [("true", .true_), ("false", .false_), ("if", .if_), ("lambda", .lambda), ("λ", .lambdaSign),
   ("let", .let_)]

def words : List (String × Terminal) := operandWords ++ [("then", .then_), ("else", .else_)]

def spelled? (table : List (String × Terminal)) (cs : List Char) : Option Match :=
  (table.find? fun (spelling, _) => spelling.toList.isPrefixOf cs).map
    fun (spelling, terminal) => (terminal, spelling.toList)

/-- A name, which is a keyword when its whole text is one of the given words. -/
def named? (keywords : List (String × Terminal)) (cs : List Char) : Option Match :=
  (nameSlice? cs).map fun slice =>
    (((keywords.find? fun (word, _) => word.toList == slice).map Prod.snd).getD .name, slice)

def literal? (cs : List Char) : Option Match :=
  ((numberSlice? cs).map fun slice => (Terminal.number, slice)).or
    ((textSlice? cs).map fun slice => (Terminal.text, slice))

/-- Longer spellings stand before their prefixes. -/
def operatorTable : List (String × Terminal) :=
  [("||", .orOp), ("&&", .andOp), ("<=", .compareOp), (">=", .compareOp), ("==", .compareOp),
   ("!=", .compareOp), ("<", .compareOp), (">", .compareOp), ("+", .addOp), ("-", .addOp),
   ("*", .mulOp), ("/", .mulOp), ("%", .mulOp), ("=", .equal)]

def bracketTable : List (String × Terminal) :=
  [("(", .leftParen), (")", .rightParen), ("\x7b", .leftBrace), ("\x7d", .rightBrace)]

def markTable : List (String × Terminal) := bracketTable ++ [(",", .comma), (";", .semicolon)]

/-- Before an operand `then` and `else` are names; after one they are recognised as spellings, even
with letters right behind them. In the head of a binder every word is a name. -/
def Context.recognise? : Context → List Char → Option Match
  | .operand, cs => (named? operandWords cs).or ((literal? cs).or (spelled? bracketTable cs))
  | .afterOperand, cs =>
      spelled? (operatorTable ++ markTable ++ [("then", .then_), ("else", .else_)]) cs
  | .binderHead, cs => (named? [] cs).or (spelled? [("(", .leftParen)] cs)
  | .binderOpen, cs => spelled? [("(", .leftParen)] cs
  | .listItem, cs => (named? [] cs).or (spelled? [(")", .rightParen)] cs)
  | .afterParam, cs => spelled? [(",", .comma), (")", .rightParen)] cs
  | .afterVariable, cs => spelled? [("=", .equal)] cs

def anywhere? (cs : List Char) : Option Match :=
  (named? words cs).or ((literal? cs).or (spelled? (operatorTable ++ markTable) cs))

structure Located where
  terminal : Terminal
  text : List Char
  start : Position

/-- The terminal ahead, or the end of the input with the start of the last terminal. -/
inductive Lookahead where
  | terminal (found : Located)
  | ended (last : Position)

/-- Columns of this front end count from one. -/
def fault {α : Type} (cause : ParseCause) (p : Position) : Except ParseError α :=
  .error ⟨cause, p.line, p.column + 1⟩

def unexpected {α : Type} : Lookahead → Except ParseError α
  | .terminal found =>
      fault (.unexpectedTerminal found.terminal (String.ofList found.text)) found.start
  | .ended last => fault .unexpectedEnd last

/-- Looks ahead in a context; `last` is the start of the terminal before. -/
def look (context : Context) (cursor : Cursor) (last : Position) :
    Except ParseError (Lookahead × Cursor) :=
  let ahead := cursor.skipBlanks
  match ahead.rest with
  | [] => .ok (.ended last, ahead)
  | c :: cs =>
      match context.recognise? (c :: cs) with
      | some (terminal, slice) => .ok (.terminal ⟨terminal, slice, ahead.pos⟩, ahead.skip slice)
      | none =>
          match anywhere? (c :: cs) with
          | some (terminal, slice) => unexpected (.terminal ⟨terminal, slice, ahead.pos⟩)
          | none => fault (.strayCharacter c) ahead.pos

end Trampoline.Grammar

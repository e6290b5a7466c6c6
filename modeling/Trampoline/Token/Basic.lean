import Trampoline.Number.Decimal
import Trampoline.Source.Cursor
import Trampoline.Text.Quoted

/-!
Lexemes of the language and tokens, which are lexemes with their place in the source.
-/

set_option autoImplicit false

namespace Trampoline

inductive Keyword where
  | let_
  | if_
  | then_
  | else_
  | lambda
  | lambdaSign
  | true_
  | false_
deriving DecidableEq, Repr

namespace Keyword

def all : List Keyword := [.let_, .if_, .then_, .else_, .lambda, .lambdaSign, .true_, .false_]

def text : Keyword → String
  | .let_ => "let"
  | .if_ => "if"
  | .then_ => "then"
  | .else_ => "else"
  | .lambda => "lambda"
  | .lambdaSign => "λ"
  | .true_ => "true"
  | .false_ => "false"

def ofText? (s : String) : Option Keyword := all.find? (·.text == s)

end Keyword

inductive Lexeme where
  | punctuation (mark : Char)
  | number (value : Float)
  | text (value : String)
  | keyword (word : Keyword)
  | name (value : String)
  | operator (symbol : String)

namespace Lexeme

def kind : Lexeme → String
  | .punctuation _ => "punc"
  | .number _ => "num"
  | .text _ => "str"
  | .keyword _ => "kw"
  | .name _ => "var"
  | .operator _ => "op"

def value : Lexeme → String
  | .punctuation mark => String.singleton mark
  | .number value => Decimal.text value
  | .text value => value
  | .keyword word => word.text
  | .name value => value
  | .operator symbol => symbol

/-- The value, quoted unless it is a number. -/
def shown : Lexeme → String
  | .number value => Decimal.text value
  | lexeme => Text.quoted lexeme.value

end Lexeme

structure Token where
  lexeme : Lexeme
  start : Position
  stop : Position

end Trampoline

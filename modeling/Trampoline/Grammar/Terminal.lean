/-!
The terminals of the grammar-driven front end.
-/

set_option autoImplicit false

namespace Trampoline.Grammar

inductive Terminal where
  | orOp
  | andOp
  | compareOp
  | addOp
  | mulOp
  | number
  | text
  | name
  | semicolon
  | equal
  | leftParen
  | rightParen
  | comma
  | leftBrace
  | rightBrace
  | true_
  | false_
  | if_
  | then_
  | else_
  | lambda
  | lambdaSign
  | let_
deriving DecidableEq, Repr

def Terminal.label : Terminal → String
  | .orOp => "or_op"
  | .andOp => "and_op"
  | .compareOp => "cmp_op"
  | .addOp => "add_op"
  | .mulOp => "mul_op"
  | .number => "number"
  | .text => "string"
  | .name => "name"
  | .semicolon => "semicolon"
  | .equal => "equal"
  | .leftParen => "lpar"
  | .rightParen => "rpar"
  | .comma => "comma"
  | .leftBrace => "lbrace"
  | .rightBrace => "rbrace"
  | .true_ => "true"
  | .false_ => "false"
  | .if_ => "if"
  | .then_ => "then"
  | .else_ => "else"
  | .lambda => "lambda"
  | .lambdaSign => "λ"
  | .let_ => "let"

end Trampoline.Grammar

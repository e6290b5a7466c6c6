import Trampoline.Token.Basic
import Trampoline.Grammar.Terminal

/-!
Why a source text is refused, and where.
-/

set_option autoImplicit false

namespace Trampoline

inductive ParseCause where
  | strayCharacter (c : Char)
  | expectedMark (mark : Char)
  | expectedKeyword (word : Keyword)
  | expectedName
  | expectedEquals (received : String)
  | unexpectedLexeme (lexeme : Lexeme)
  | unexpectedTerminal (terminal : Grammar.Terminal) (text : String)
  | unexpectedEnd
  | remark (text : String)
  | tooDeep

def ParseCause.message : ParseCause → String
  | .strayCharacter c => "Can't handle character: " ++ String.singleton c
  | .expectedMark mark => "Expecting punctuation: \"" ++ String.singleton mark ++ "\""
  | .expectedKeyword word => "Expecting keyword: \"" ++ word.text ++ "\""
  | .expectedName => "Expecting variable name"
  | .expectedEquals received => "Expected token '='. Received: '" ++ received ++ "'"
  | .unexpectedLexeme lexeme => "Unexpected token: " ++ lexeme.kind ++ " " ++ lexeme.shown
  | .unexpectedTerminal terminal text =>
      "Unexpected token: " ++ terminal.label ++ " " ++ Text.quoted text
  | .unexpectedEnd => "Unexpected end of input"
  | .remark text => text
  | .tooDeep => "Nesting limit reached"

structure ParseError where
  cause : ParseCause
  line : Nat
  column : Nat

def ParseCause.located (cause : ParseCause) (p : Position) : ParseError :=
  ⟨cause, p.line, p.column⟩

def Cursor.fault (c : Cursor) (text : String) : ParseError := (ParseCause.remark text).located c.pos

def ParseError.message (e : ParseError) : String :=
  e.cause.message ++ " (" ++ toString e.line ++ ":" ++ toString e.column ++ ")"

end Trampoline

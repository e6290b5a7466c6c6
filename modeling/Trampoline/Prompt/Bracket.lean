import Trampoline.Token.Stream

/-!
Open brackets: the prompt reads more lines while a bracket is open.
-/

set_option autoImplicit false

namespace Trampoline.Prompt

def isOpening (c : Char) : Bool := c == '(' || c == '\x7b' || c == '['

def isClosing (c : Char) : Bool := c == ')' || c == '\x7d' || c == ']'

/-- A closing bracket never counts below zero, and kinds of brackets are not told apart. -/
def depthAfter (depth : Nat) (t : Token) : Nat :=
  match t.lexeme with
  | .punctuation c => if isOpening c then depth + 1 else if isClosing c then depth - 1 else depth
  | _ => depth

/-- The number of open brackets, or zero for a text that does not split into tokens. -/
def bracketDepth (text : String) : Nat :=
  match tokenize text with
  | .ok ts => ts.foldl depthAfter 0
  | .error _ => 0

end Trampoline.Prompt

import Trampoline.Number.Decimal
import Trampoline.Value.Basic

/-!
The texts of a value: the form in which it is printed and the form in which it is shown in messages.
-/

set_option autoImplicit false

namespace Trampoline.Value

def wordText (b : Bool) : String := if b then "true" else "false"

def closureText (name : Option String) : String :=
  match name with
  | some x => if x.isEmpty then "<lambda>" else "<lambda " ++ x ++ ">"
  | none => "<lambda>"

/-- A string is shown between quotes, with nothing escaped. -/
def shown : Value → String
  | .absent => "None"
  | .num x => Decimal.plain x
  | .str s => "\"" ++ s ++ "\""
  | .bool b => wordText b
  | .closure c => closureText c.name
  | .builtin b => "<builtin " ++ b.name ++ ">"
  | .continuation .. => "<continuation>"

/-- A string is printed as it is, and an absent value as `false`. -/
def text : Value → String
  | .absent => "false"
  | .str s => s
  | v => v.shown

end Trampoline.Value

/-!
Expressions of the language.
-/

set_option autoImplicit false

namespace Trampoline

-- A hole stands where nothing was written: the missing branch of a conditional or the missing
-- initialiser of a binding. A hole or a bare binding can be shown, but not evaluated.
mutual

inductive Expr where
  | hole
  | num (value : Float)
  | str (value : String)
  | bool (value : Bool)
  | var (name : String)
  | lambda (params : List String) (body : Expr) (name : Option String)
  | call (func : Expr) (args : List Expr)
  | cond (test yes no : Expr)
  | assign (target value : Expr)
  | binary (op : String) (left right : Expr)
  | prog (body : List Expr)
  | letIn (bindings : List Binding) (body : Expr)
  | binding (b : Binding)

inductive Binding where
  | mk (name : String) (init : Expr)

end

instance : Inhabited Expr := ⟨.hole⟩

def Binding.name : Binding → String
  | .mk name _ => name

def Binding.init : Binding → Expr
  | .mk _ init => init

namespace Expr

/-- The value of an empty block and of a binding without an initialiser. -/
def no : Expr := .bool false

def isHole : Expr → Bool
  | .hole => true
  | _ => false

def label : Expr → String
  | .hole => "NoneType"
  | .num _ => "num"
  | .str _ => "str"
  | .bool _ => "bool"
  | .var _ => "var"
  | .lambda .. => "lambda"
  | .call .. => "call"
  | .cond .. => "if"
  | .assign .. => "assign"
  | .binary .. => "binary"
  | .prog _ => "prog"
  | .letIn .. => "let"
  | .binding _ => "LetBinding"

/-- Items in braces: none is `false`, one stands for itself. -/
def block : List Expr → Expr
  | [] => no
  | [item] => item
  | items => .prog items

/-- A named `let` calls a function of that name with the initial values. -/
def namedLet (name : String) (bindings : List Binding) (body : Expr) : Expr :=
  .call (.lambda (bindings.map Binding.name) body (some name)) (bindings.map Binding.init)

end Expr

end Trampoline

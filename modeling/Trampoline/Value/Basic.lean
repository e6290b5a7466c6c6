import Trampoline.Expr.Basic

/-!
Runtime values, the scopes they are seen from, and continuations.
-/

set_option autoImplicit false

namespace Trampoline

inductive Mode where
  | sync
  | cps
deriving DecidableEq, Repr

namespace Mode

def name : Mode → String
  | .sync => "sync"
  | .cps => "cps"

def ofName? : String → Option Mode
  | "sync" => some .sync
  | "cps" => some .cps
  | _ => none

end Mode

abbrev ScopeId := Nat

abbrev MachineId := Nat

/-- A scope with the scopes around it, from the nearest to the root. -/
structure Env where
  scope : ScopeId
  outer : List ScopeId
deriving DecidableEq, Repr

namespace Env

def chain (env : Env) : List ScopeId := env.scope :: env.outer

def isRoot (env : Env) : Bool := env.outer.isEmpty

end Env

inductive Action where
  | print
  | time
  | halt
  | sleep
  | callcc
deriving DecidableEq, Repr

/-- A builtin function of one mode. Library builtins have stamp zero; others of the same name are
told apart by their stamps. -/
structure Builtin where
  name : String
  mode : Mode
  action : Action
  stamp : Nat := 0
deriving DecidableEq, Repr

namespace Builtin

def arity (b : Builtin) : Nat :=
  match b.action with
  | .halt => 0
  | _ => 1

def library (mode : Mode) : List Builtin :=
  [⟨"print", mode, .print, 0⟩, ⟨"println", mode, .print, 0⟩, ⟨"time", mode, .time, 0⟩,
   ⟨"halt", mode, .halt, 0⟩, ⟨"sleep", mode, .sleep, 0⟩, ⟨"call/cc", mode, .callcc, 0⟩,
   ⟨"CallCC", mode, .callcc, 0⟩]

end Builtin

/-- A function with the scope it was made in. Each closure has a stamp of its own. -/
structure Closure where
  stamp : Nat
  params : List String
  body : Expr
  name : Option String
  env : Env

-- `absent` is no value of the language: it stands where an embedder left a slot empty.
--
-- A continuation is a list of frames, the innermost first. A frame belongs to the machine that
-- made it and spends the budget of that machine.
mutual

inductive Value where
  | absent
  | num (value : Float)
  | str (value : String)
  | bool (value : Bool)
  | closure (c : Closure)
  | builtin (b : Builtin)
  | continuation (stamp : Nat) (frames : List Frame)

inductive Frame where
  | final (machine : MachineId)
  | assign (machine : MachineId) (name : String) (env : Env)
  | left (machine : MachineId) (op : String) (right : Expr) (env : Env)
  | right (machine : MachineId) (op : String) (left : Value)
  | branch (machine : MachineId) (yes no : Expr) (env : Env)
  | item (machine : MachineId) (rest : List Expr) (env : Env)
  | callee (machine : MachineId) (args : List Expr) (env : Env)
  | argument (machine : MachineId) (func : Value) (done : List Value) (rest : List Expr) (env : Env)
  | init (machine : MachineId) (name : String) (rest : List Binding) (body : Expr) (env : Env)
  | timed (start : Nat) (env : Env)

end

instance : Inhabited Value := ⟨.absent⟩

abbrev Kont := List Frame

namespace Value

/-- The value of a missing argument, a missing initialiser and a missing branch. -/
def no : Value := .bool false

/-- Only `false` is not true. -/
def truthy : Value → Bool
  | .bool b => b
  | _ => true

/-- Numbers, strings and booleans are equal by content, functions by identity, and values of
different kinds never. -/
def same : Value → Value → Bool
  | .num a, .num b => a == b
  | .str a, .str b => a == b
  | .bool a, .bool b => a == b
  | .closure a, .closure b => a.stamp == b.stamp
  | .builtin a, .builtin b => a == b
  | .continuation a _, .continuation b _ => a == b
  | _, _ => false

end Value

/-- The argument at the front, or `false`. -/
def firstArg (args : List Value) : Value := args.headD .no

end Trampoline

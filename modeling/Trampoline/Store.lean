import Trampoline.Value.Basic

/-!
Scopes and the store that holds them. A scope maps names to values and may have an output stream of
its own; an environment sees its scope and then, outwards, the scopes around it.
-/

set_option autoImplicit false

namespace Trampoline

inductive Stream where
  | standard
  | handle (id : Nat)
deriving DecidableEq, Repr

structure Scope where
  vars : List (String × Value) := []
  out : Option Stream := none

namespace Scope

def setIn (name : String) (v : Value) : List (String × Value) → List (String × Value)
  | [] => [(name, v)]
  | (key, old) :: vars => if key = name then (key, v) :: vars else (key, old) :: setIn name v vars

def get? (s : Scope) (name : String) : Option Value := s.vars.lookup name

def set (s : Scope) (name : String) (v : Value) : Scope := { s with vars := setIn name v s.vars }

/-- Of two bindings of one name the later one holds. -/
def ofBindings (vars : List (String × Value)) (out : Option Stream) : Scope :=
  ⟨vars.foldl (fun vars (name, v) => setIn name v vars) [], out⟩

end Scope

structure Store where
  scopes : Array Scope := #[]

namespace Store

def valueIn? (s : Store) (name : String) (i : ScopeId) : Option Value :=
  (s.scopes[i]?).bind (·.get? name)

def lookup? (s : Store) (env : Env) (name : String) : Option ScopeId :=
  env.chain.find? fun i => (s.valueIn? name i).isSome

def get? (s : Store) (env : Env) (name : String) : Option Value :=
  env.chain.findSome? (s.valueIn? name)

def setIn (s : Store) (i : ScopeId) (name : String) (v : Value) : Store :=
  ⟨s.scopes.modify i (·.set name v)⟩

def define (s : Store) (env : Env) (name : String) (v : Value) : Store := s.setIn env.scope name v

/-- The scope that an assignment writes to: the nearest one that defines the name; an unknown name
is created in the root, and only by an assignment made there. -/
def target? (s : Store) (env : Env) (name : String) : Option ScopeId :=
  match s.lookup? env name with
  | some i => some i
  | none => if env.isRoot then some env.scope else none

def assign? (s : Store) (env : Env) (name : String) (v : Value) : Option Store :=
  (s.target? env name).map fun i => s.setIn i name v

def child (s : Store) (env : Env) : Env := ⟨s.scopes.size, env.chain⟩

def extend (s : Store) (env : Env) (vars : List (String × Value)) : Env × Store :=
  (s.child env, ⟨s.scopes.push (.ofBindings vars none)⟩)

def root (s : Store) (vars : List (String × Value)) (out : Option Stream) : Env × Store :=
  (⟨s.scopes.size, []⟩, ⟨s.scopes.push (.ofBindings vars out)⟩)

def setOut (s : Store) (env : Env) (out : Option Stream) : Store :=
  ⟨s.scopes.modify env.scope ({ · with out := out })⟩

/-- The nearest stream that is set, or the standard one. -/
def output (s : Store) (env : Env) : Stream :=
  (env.chain.findSome? fun i => (s.scopes[i]?).bind Scope.out).getD .standard

def varsOf (s : Store) (env : Env) : List (String × Value) :=
  match s.scopes[env.scope]? with
  | some scope => scope.vars
  | none => []

/-- The bindings of a root without the builtins that still have their own name. -/
def userVars (s : Store) (env : Env) : List (String × Value) :=
  (s.varsOf env).filter fun (name, v) =>
    match v with
    | .builtin b => b.name != name
    | _ => true

end Store

end Trampoline

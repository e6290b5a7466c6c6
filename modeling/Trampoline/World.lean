import Trampoline.Failure
import Trampoline.Store

/-!
What a running program acts on: the store, the clock, the machines with their timers, and the trace
of all that can be observed.
-/

set_option autoImplicit false

namespace Trampoline

inductive Loop where
  | missing
  | running
  | closed
deriving DecidableEq, Repr

/-- A continuation machine: the steps of a leg, how many are left, how often a leg was used up, and
how many resumptions are waiting. -/
structure Machine where
  budget : Nat
  remaining : Nat
  bounces : Nat := 0
  pending : Int := 0
  loop : Loop
deriving DecidableEq, Repr

structure Timer where
  machine : MachineId
  due : Float
  kont : Kont
  value : Value

inductive Event where
  | line (stream : Stream) (text : String)
  | armed (milliseconds : Float) (pending : Int)
  | legs (count : Nat)
  | finished (bounces : Nat)
  | result (value : Value)
  | idle
  | failed (cause : Failure)
  | raised (cause : Failure)
  | ran (bounces remaining : Nat) (pending : Int)

inductive Checkpoint where
  | evaluate
  | loop
  | enter
  | assign
  | left
  | right
  | branch
  | item
  | callee
  | argument
  | init
deriving DecidableEq, Repr

/-- The time in microseconds at each reading of the clock. -/
abbrev Clock := Nat → Nat

/-- An eighth of a second passes between two readings. -/
def Clock.steady : Clock := fun n => 125000 * n

/-- The checks of the budget, with whether they were passed, are kept only on demand, newest first. -/
structure World where
  store : Store := {}
  stamps : Nat := 0
  clock : Clock := .steady
  readings : Nat := 0
  machines : Array Machine := #[]
  timers : List Timer := []
  now : Float := 0
  trace : Array Event := #[]
  checks : Option (List (Checkpoint × Bool)) := none

namespace World

def note (w : World) (event : Event) : World := { w with trace := w.trace.push event }

def writeLine (w : World) (env : Env) (text : String) : World :=
  w.note (.line (w.store.output env) text)

def fresh (w : World) : Nat × World := (w.stamps, { w with stamps := w.stamps + 1 })

def readClock (w : World) : Nat × World :=
  (w.clock (w.readings + 1), { w with readings := w.readings + 1 })

def elapsedText (microseconds : Nat) : String :=
  let places := toString (microseconds % 1000)
  "Time: " ++ toString (microseconds / 1000) ++ "."
    ++ String.ofList (List.replicate (3 - places.length) '0') ++ places ++ "ms"

/-- Writes the time since the start, after one more reading of the clock. -/
def reportElapsed (w : World) (env : Env) (start : Nat) : World :=
  let (stop, w) := w.readClock
  w.writeLine env (elapsedText (stop - start))

def setVar (w : World) (i : ScopeId) (name : String) (v : Value) : World :=
  { w with store := w.store.setIn i name v }

/-- A function made in an environment; a named one gets a scope around it that holds its name. -/
def makeClosure (w : World) (params : List String) (body : Expr) (name : Option String)
    (env : Env) : Value × World :=
  let (stamp, w) := w.fresh
  let self := name.getD ""
  if self.isEmpty then (.closure ⟨stamp, params, body, name, env⟩, w)
  else
    let v := .closure ⟨stamp, params, body, name, w.store.child env⟩
    (v, { w with store := (w.store.extend env [(self, v)]).2 })

/-- Parameters with their arguments; a missing argument is `false`. -/
def bindArgs : List String → List Value → List (String × Value)
  | [], _ => []
  | param :: params, args => (param, firstArg args) :: bindArgs params args.tail

/-- The scope of a call: inside the scope that the function was made in. -/
def bindParams (w : World) (c : Closure) (args : List Value) : Env × World :=
  let (env, store) := w.store.extend c.env (bindArgs c.params args)
  (env, { w with store := store })

def bind (w : World) (env : Env) (name : String) (v : Value) : Env × World :=
  let (inner, store) := w.store.extend env [(name, v)]
  (inner, { w with store := store })

def root (w : World) (mode : Mode) (out : Option Stream) : Env × World :=
  let (env, store) := w.store.root ((Builtin.library mode).map fun b => (b.name, .builtin b)) out
  (env, { w with store := store })

/-- The text of all lines of a trace that went to a stream. -/
def printed (trace : Array Event) (stream : Stream) : String :=
  trace.foldl
    (fun text event =>
      match event with
      | .line s line => if s = stream then text ++ line ++ "\n" else text
      | _ => text)
    ""

end World

def printText (args : List Value) : String := " ".intercalate (args.map Value.text)

end Trampoline

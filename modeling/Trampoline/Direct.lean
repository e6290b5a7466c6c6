import Trampoline.Operator
import Trampoline.World

/-!
The direct evaluator. The bound limits the depth of the evaluation; running into it is apart from
both values and failures.
-/

set_option autoImplicit false

namespace Trampoline.Direct

inductive Outcome (α : Type) where
  | done (value : α) (world : World)
  | failed (cause : Failure) (world : World)
  | unfinished

/-- A computation that acts on the world; a failure keeps what was done before it. -/
def Eval (α : Type) := World → Outcome α

namespace Eval

@[inline] def pure {α : Type} (value : α) : Eval α := fun w => .done value w

@[inline] def bind {α β : Type} (x : Eval α) (f : α → Eval β) : Eval β := fun w =>
  match x w with
  | .done value w => f value w
  | .failed cause w => .failed cause w
  | .unfinished => .unfinished

instance : Monad Eval where
  pure := Eval.pure
  bind := Eval.bind

@[inline] def fail {α : Type} (cause : Failure) : Eval α := fun w => .failed cause w

@[inline] def unfinished {α : Type} : Eval α := fun _ => .unfinished

@[inline] def update {α : Type} (f : World → α × World) : Eval α := fun w =>
  let (value, w) := f w
  .done value w

@[inline] def ofExcept {α : Type} : Except Failure α → Eval α
  | .ok value => Eval.pure value
  | .error cause => fail cause

end Eval

def read (env : Env) (name : String) : Eval Value := fun w =>
  match w.store.get? env name with
  | some v => .done v w
  | none => .failed (.undefinedVariable name) w

def write (env : Env) (name : String) (v : Value) : Eval Value := fun w =>
  match w.store.target? env name with
  | some i => .done v (w.setVar i name v)
  | none => .failed (.undefinedVariable name) w

/-- The elapsed time is written whether the computation succeeds or fails. -/
def timed (env : Env) (x : Eval Value) : Eval Value := fun w =>
  let (start, w) := w.readClock
  match x w with
  | .done v w => .done v (w.reportElapsed env start)
  | .failed cause w => .failed cause (w.reportElapsed env start)
  | .unfinished => .unfinished

/-- A builtin runs in the scope of its caller; `callThunk` calls a value without arguments. -/
def callBuiltin (callThunk : Value → Eval Value) (b : Builtin) (args : List Value) (env : Env) :
    Eval Value :=
  match b.mode, b.action with
  | .cps, _ => Eval.fail (.wrongMode b.name .sync)
  | .sync, .print => Eval.update fun w => (.no, w.writeLine env (printText args))
  | .sync, .time => timed env (callThunk (firstArg args))
  | .sync, .halt => Eval.fail .halted
  | .sync, .sleep => Eval.fail (.cpsOnly "sleep")
  | .sync, .callcc => Eval.fail (.cpsOnly "call/cc")

section Sequences

variable (eval : Expr → Env → Eval Value)

def evalEach (env : Env) : List Expr → Eval (List Value)
  | [] => Eval.pure []
  | e :: es => do
      let v ← eval e env
      let vs ← evalEach env es
      return v :: vs

def evalLast (env : Env) : Value → List Expr → Eval Value
  | last, [] => Eval.pure last
  | _, e :: es => do
      let v ← eval e env
      evalLast env v es

def evalInit (env : Env) (init : Expr) : Eval Value :=
  if init.isHole then Eval.pure .no else eval init env

/-- One scope for each binding; an initialiser sees the bindings before it. -/
def evalBindings : Env → List Binding → Eval Env
  | env, [] => Eval.pure env
  | env, .mk name init :: bindings => do
      let v ← evalInit eval env init
      let inner ← Eval.update fun w => w.bind env name v
      evalBindings inner bindings

end Sequences

mutual

def eval : Nat → Expr → Env → Eval Value
  | 0, _, _ => Eval.unfinished
  | bound + 1, e, env =>
      match e with
      | .num x => Eval.pure (.num x)
      | .str s => Eval.pure (.str s)
      | .bool b => Eval.pure (.bool b)
      | .var name => read env name
      | .assign (.var name) value => do
          let v ← eval bound value env
          write env name v
      | .assign target _ => Eval.fail (.invalidTarget target)
      | .binary op left right => do
          let a ← eval bound left env
          let b ← eval bound right env
          Eval.ofExcept (applyOperator op a b)
      | .lambda params body name => Eval.update fun w => w.makeClosure params body name env
      | .cond test yes no => do
          let v ← eval bound test env
          if v.truthy then eval bound yes env
          else if no.isHole then Eval.pure .no
          else eval bound no env
      | .prog body => evalLast (eval bound) env .no body
      | .call func args => do
          let f ← eval bound func env
          let vs ← evalEach (eval bound) env args
          call bound f vs env
      | .letIn bindings body => do
          let inner ← evalBindings (eval bound) env bindings
          eval bound body inner
      | .hole => Eval.fail (.notEvaluable .hole)
      | .binding b => Eval.fail (.notEvaluable (.binding b))

def call : Nat → Value → List Value → Env → Eval Value
  | 0, _, _, _ => Eval.unfinished
  | bound + 1, func, args, env =>
      match func with
      | .closure c => do
          let inner ← Eval.update fun w => w.bindParams c args
          eval bound c.body inner
      | .builtin b => callBuiltin (fun f => call bound f [] env) b args env
      | other => Eval.fail (.notFunction other)

end

end Trampoline.Direct

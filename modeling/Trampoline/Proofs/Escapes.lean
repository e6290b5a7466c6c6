import Trampoline.Direct

set_option autoImplicit false

namespace Trampoline.Escaping

-- An escape is on its way to the call of its tag. Where that call has returned nothing catches it, so that the
-- whole evaluation escapes.
inductive Outcome (α : Type) where
  | done (value : α) (world : World)
  | escaped (tag : Nat) (value : Value) (world : World)
  | failed (cause : Failure) (world : World)
  | unfinished

def Eval (α : Type) := World → Outcome α

namespace Eval

def pure {α : Type} (value : α) : Eval α := fun w => .done value w

def bind {α β : Type} (x : Eval α) (f : α → Eval β) : Eval β := fun w =>
  match x w with
  | .done value w => f value w
  | .escaped tag value w => .escaped tag value w
  | .failed cause w => .failed cause w
  | .unfinished => .unfinished

instance : Monad Eval where
  pure := Eval.pure
  bind := Eval.bind

def fail {α : Type} (cause : Failure) : Eval α := fun w => .failed cause w

def unfinished {α : Type} : Eval α := fun _ => .unfinished

def update {α : Type} (f : World → α × World) : Eval α := fun w => .done (f w).1 (f w).2

def escape (tag : Nat) (v : Value) : Eval Value := fun w => .escaped tag v w

def lift {α : Type} (x : Direct.Eval α) : Eval α := fun w =>
  match x w with
  | .done value w => .done value w
  | .failed cause w => .failed cause w
  | .unfinished => .unfinished

def catching (tag : Nat) (x : Eval Value) : Eval Value := fun w =>
  match x w with
  | .escaped other v w => if other = tag then .done v w else .escaped other v w
  | outcome => outcome

end Eval

def timed (env : Env) (x : Eval Value) : Eval Value := do
  let start ← Eval.update World.readClock
  let v ← x
  Eval.update fun w => (v, w.reportElapsed env start)

def callBuiltin (callValue : Value → List Value → Eval Value) (b : Builtin) (args : List Value) (env : Env) :
    Eval Value :=
  match b.mode, b.action with
  | .cps, _ => Eval.fail (.wrongMode b.name .sync)
  | .sync, .print => Eval.update fun w => (.no, w.writeLine env (printText args))
  | .sync, .time => timed env (callValue (firstArg args) [])
  | .sync, .halt => Eval.fail .halted
  | .sync, .sleep => do
      let _ ← Eval.lift (Direct.Eval.ofExcept (firstArg args).toNumber)
      return .no
  | .sync, .callcc => do
      let tag ← Eval.update World.fresh
      Eval.catching tag (callValue (firstArg args) [.continuation tag []])

section Sequences

variable (eval : Expr → Env → Eval Value)

def evalEach (env : Env) : List Expr → Eval (List Value)
  | [] => Eval.pure []
  | e :: es => do
      let v ← eval e env
      let vs ← evalEach env es
      return v :: vs

def evalLast (env : Env) : Value → List Expr → Eval Value
  | last, [] => Eval.pure last
  | _, e :: es => do
      let v ← eval e env
      evalLast env v es

def evalInit (env : Env) (init : Expr) : Eval Value :=
  if init.isHole then Eval.pure .no else eval init env

def evalBindings : Env → List Binding → Eval Env
  | env, [] => Eval.pure env
  | env, .mk name init :: bindings => do
      let v ← evalInit eval env init
      let inner ← Eval.update fun w => w.bind env name v
      evalBindings inner bindings

end Sequences

mutual

def eval : Nat → Expr → Env → Eval Value
  | 0, _, _ => Eval.unfinished
  | bound + 1, e, env =>
      match e with
      | .num x => Eval.pure (.num x)
      | .str s => Eval.pure (.str s)
      | .bool b => Eval.pure (.bool b)
      | .var name => Eval.lift (Direct.read env name)
      | .assign (.var name) value => do
          let v ← eval bound value env
          Eval.lift (Direct.write env name v)
      | .assign target _ => Eval.fail (.invalidTarget target)
      | .binary op left right => do
          let a ← eval bound left env
          let b ← eval bound right env
          Eval.lift (Direct.Eval.ofExcept (applyOperator op a b))
      | .lambda params body name => Eval.update fun w => w.makeClosure params body name env
      | .cond test yes no => do
          let v ← eval bound test env
          if v.truthy then eval bound yes env
          else if no.isHole then Eval.pure .no
          else eval bound no env
      | .prog body => evalLast (eval bound) env .no body
      | .call func args => do
          let f ← eval bound func env
          let vs ← evalEach (eval bound) env args
          call bound f vs env
      | .letIn bindings body => do
          let inner ← evalBindings (eval bound) env bindings
          eval bound body inner
      | .hole => Eval.fail (.notEvaluable .hole)
      | .binding b => Eval.fail (.notEvaluable (.binding b))

def call : Nat → Value → List Value → Env → Eval Value
  | 0, _, _, _ => Eval.unfinished
  | bound + 1, func, args, env =>
      match func with
      | .closure c => do
          let inner ← Eval.update fun w => w.bindParams c args
          eval bound c.body inner
      | .builtin b => callBuiltin (fun f vs => call bound f vs env) b args env
      | .continuation tag _ => Eval.escape tag (firstArg args)
      | other => Eval.fail (.notFunction other)

end

def ReturnsSame {α : Type} (x : Direct.Eval α) (y : Eval α) : Prop :=
  ∀ w v after, x w = .done v after → y w = .done v after

namespace ReturnsSame

variable {α β : Type}

theorem lift (x : Direct.Eval α) : ReturnsSame x (Eval.lift x) := by
  intro w v after returned
  simp only [Eval.lift, returned]

theorem pure (v : α) : ReturnsSame (Direct.Eval.pure v) (Eval.pure v) := by
  intro w u after returned
  cases returned
  rfl

theorem update (f : World → α × World) : ReturnsSame (Direct.Eval.update f) (Eval.update f) := by
  intro w v after returned
  cases returned
  rfl

theorem bind {x : Direct.Eval α} {y : Eval α} {f : α → Direct.Eval β} {g : α → Eval β}
    (first : ReturnsSame x y) (rest : ∀ a, ReturnsSame (f a) (g a)) :
    ReturnsSame (Direct.Eval.bind x f) (Eval.bind y g) := by
  intro w v after returned
  simp only [Direct.Eval.bind] at returned
  cases outcome : x w with
  | done a u =>
      rw [outcome] at returned
      simp only [Eval.bind, first w a u outcome]
      exact rest a u v after returned
  | failed cause u =>
      rw [outcome] at returned
      cases returned
  | unfinished =>
      rw [outcome] at returned
      cases returned

theorem fail (cause : Failure) (y : Eval α) : ReturnsSame (Direct.Eval.fail cause) y := by
  intro w v after returned
  cases returned

theorem timed (env : Env) {x : Direct.Eval Value} {y : Eval Value} (thunk : ReturnsSame x y) :
    ReturnsSame (Direct.timed env x) (Escaping.timed env y) := by
  intro w v after returned
  simp only [Direct.timed] at returned
  cases outcome : x w.readClock.2 with
  | done a u =>
      rw [outcome] at returned
      cases returned
      have same := thunk _ _ _ outcome
      simp only [Escaping.timed, Bind.bind, Eval.bind, Eval.update, same]
  | failed cause u =>
      rw [outcome] at returned
      cases returned
  | unfinished =>
      rw [outcome] at returned
      cases returned

theorem callBuiltin {x : Value → Direct.Eval Value} {y : Value → List Value → Eval Value}
    (thunk : ∀ f, ReturnsSame (x f) (y f [])) (b : Builtin) (args : List Value) (env : Env) :
    ReturnsSame (Direct.callBuiltin x b args env) (Escaping.callBuiltin y b args env) := by
  obtain ⟨name, mode, action, stamp⟩ := b
  cases mode with
  | cps => exact fail _ _
  | sync =>
      cases action with
      | print => exact update fun w => (Value.no, w.writeLine env (printText args))
      | time => exact timed env (thunk _)
      | halt => exact fail _ _
      | sleep => exact fail _ _
      | callcc => exact fail _ _

section

variable {x : Expr → Env → Direct.Eval Value} {y : Expr → Env → Eval Value}
  (parts : ∀ e env, ReturnsSame (x e env) (y e env))

include parts

theorem evalEach (env : Env) (es : List Expr) :
    ReturnsSame (Direct.evalEach x env es) (Escaping.evalEach y env es) := by
  induction es with
  | nil => exact pure _
  | cons e es ih => exact bind (parts e env) fun v => bind ih fun vs => pure _

theorem evalLast (env : Env) (last : Value) (es : List Expr) :
    ReturnsSame (Direct.evalLast x env last es) (Escaping.evalLast y env last es) := by
  induction es generalizing last with
  | nil => exact pure _
  | cons e es ih => exact bind (parts e env) fun v => ih v

theorem evalInit (env : Env) (init : Expr) :
    ReturnsSame (Direct.evalInit x env init) (Escaping.evalInit y env init) := by
  unfold Direct.evalInit Escaping.evalInit
  split
  · exact pure _
  · exact parts init env

theorem evalBindings (env : Env) (bs : List Binding) :
    ReturnsSame (Direct.evalBindings x env bs) (Escaping.evalBindings y env bs) := by
  induction bs generalizing env with
  | nil => exact pure _
  | cons b bs ih =>
      obtain ⟨name, init⟩ := b
      exact bind (evalInit parts env init) fun v => bind (update _) fun inner => ih inner

end

end ReturnsSame

theorem returnsSame_direct (bound : Nat) :
    (∀ e env, ReturnsSame (Direct.eval bound e env) (eval bound e env)) ∧
      ∀ func args env, ReturnsSame (Direct.call bound func args env) (call bound func args env) := by
  induction bound with
  | zero =>
      constructor
      · intro e env w v after returned
        cases returned
      · intro func args env w v after returned
        cases returned
  | succ bound ih =>
      obtain ⟨evals, calls⟩ := ih
      constructor
      · intro e env
        cases e with
        | num x => exact .pure _
        | str s => exact .pure _
        | bool b => exact .pure _
        | var name => exact .lift _
        | assign target value =>
            cases target with
            | var name => exact .bind (evals value env) fun v => .lift _
            | _ => exact .fail _ _
        | binary op left right =>
            exact .bind (evals left env) fun _ => .bind (evals right env) fun _ => .lift _
        | lambda params body name => exact .update _
        | cond test yes no =>
            refine .bind (evals test env) fun v => ?_
            split
            · exact evals yes env
            · split
              · exact .pure _
              · exact evals no env
        | prog body => exact .evalLast evals env .no body
        | call func args =>
            exact .bind (evals func env) fun f => .bind (.evalEach evals env args) fun vs => calls f vs env
        | letIn bs body => exact .bind (.evalBindings evals env bs) fun inner => evals body inner
        | hole => exact .fail _ _
        | binding b => exact .fail _ _
      · intro func args env
        cases func with
        | closure c => exact .bind (.update fun w => w.bindParams c args) fun inner => evals c.body inner
        | builtin b =>
            change ReturnsSame (Direct.callBuiltin (fun f => Direct.call bound f [] env) b args env)
              (callBuiltin (fun f vs => call bound f vs env) b args env)
            exact .callBuiltin (fun f => calls f [] env) b args env
        | _ => exact .fail _ _

end Trampoline.Escaping

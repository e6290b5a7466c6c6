import Trampoline.Direct
import Trampoline.Proofs.Flow

set_option autoImplicit false

namespace Trampoline

-- Nothing that is evaluated is a hole or a bare binding, and every operator is a known one. A hole may
-- stand for a missing branch and for a missing initialiser; what is assigned to is not evaluated.
mutual

def Expr.Evaluable (known : String → Prop) : Expr → Prop
  | .hole => False
  | .num _ => True
  | .str _ => True
  | .bool _ => True
  | .var _ => True
  | .lambda _ body _ => body.Evaluable known
  | .call func args => func.Evaluable known ∧ exprsEvaluable known args
  | .cond test yes no =>
      test.Evaluable known ∧ yes.Evaluable known ∧ (no.isHole = true ∨ no.Evaluable known)
  | .assign _ value => value.Evaluable known
  | .binary op left right => known op ∧ left.Evaluable known ∧ right.Evaluable known
  | .prog body => exprsEvaluable known body
  | .letIn bindings body => bindingsEvaluable known bindings ∧ body.Evaluable known
  | .binding _ => False

def exprsEvaluable (known : String → Prop) : List Expr → Prop
  | [] => True
  | e :: es => e.Evaluable known ∧ exprsEvaluable known es

def bindingsEvaluable (known : String → Prop) : List Binding → Prop
  | [] => True
  | .mk _ init :: bindings =>
      (init.isHole = true ∨ init.Evaluable known) ∧ bindingsEvaluable known bindings

end

mutual

def Value.Evaluable (known : String → Prop) : Value → Prop
  | .closure c => c.body.Evaluable known
  | .continuation _ frames => framesEvaluable known frames
  | _ => True

def Frame.Evaluable (known : String → Prop) : Frame → Prop
  | .final _ => True
  | .assign _ _ _ => True
  | .left _ op right _ => known op ∧ right.Evaluable known
  | .right _ op left => known op ∧ left.Evaluable known
  | .branch _ yes no _ => yes.Evaluable known ∧ (no.isHole = true ∨ no.Evaluable known)
  | .item _ rest _ => exprsEvaluable known rest
  | .callee _ args _ => exprsEvaluable known args
  | .argument _ func done rest _ =>
      func.Evaluable known ∧ valuesEvaluable known done ∧ exprsEvaluable known rest
  | .init _ _ rest body _ => bindingsEvaluable known rest ∧ body.Evaluable known
  | .timed _ _ => True

def framesEvaluable (known : String → Prop) : List Frame → Prop
  | [] => True
  | frame :: k => frame.Evaluable known ∧ framesEvaluable known k

def valuesEvaluable (known : String → Prop) : List Value → Prop
  | [] => True
  | v :: vs => v.Evaluable known ∧ valuesEvaluable known vs

end

section

variable {known : String → Prop}

theorem exprsEvaluable_iff (es : List Expr) :
    exprsEvaluable known es ↔ ∀ e ∈ es, e.Evaluable known := by
  induction es with
  | nil => simp [exprsEvaluable]
  | cons e es ih => simp [exprsEvaluable, ih]

theorem valuesEvaluable_iff (vs : List Value) :
    valuesEvaluable known vs ↔ ∀ v ∈ vs, v.Evaluable known := by
  induction vs with
  | nil => simp [valuesEvaluable]
  | cons v vs ih => simp [valuesEvaluable, ih]

theorem firstArg_evaluable {args : List Value} (values : valuesEvaluable known args) :
    (firstArg args).Evaluable known :=
  firstArg_holds trivial args ((valuesEvaluable_iff args).mp values)

end

-- The failures of evaluable code in a mode. An operator fails as an unknown one only if it is a known one
-- without a meaning.
def Failure.Arises (known : String → Prop) (mode : Mode) : Failure → Prop
  | .undefinedVariable _ => True
  | .invalidTarget _ => True
  | .notNumber _ => True
  | .notFunction _ => True
  | .divideByZero => True
  | .halted => mode = .sync
  | .cpsOnly _ => mode = .sync
  | .wrongMode _ _ => True
  | .noEventLoop => mode = .cps
  | .loopClosed => mode = .cps
  | .remainderDomain => known "%"
  | .unknownOperator symbol => known symbol ∧ Operator.ofSymbol? symbol = none
  | _ => False

theorem Operator.ofSymbol?_rem {symbol : String} (rem : ofSymbol? symbol = some .rem) : symbol = "%" := by
  unfold ofSymbol? at rem
  split at rem <;> first | rfl | cases rem

theorem OperatorFailure.arises {known : String → Prop} {mode : Mode} {symbol : String} {cause : Failure}
    (failure : OperatorFailure symbol cause) (listed : known symbol) : cause.Arises known mode := by
  cases failure with
  | notNumber | divideByZero => trivial
  | remainderDomain remainder =>
      cases Operator.ofSymbol?_rem remainder
      exact listed
  | unknownOperator unknown => exact ⟨listed, unknown⟩

def Timer.Evaluable (known : String → Prop) (t : Timer) : Prop :=
  framesEvaluable known t.kont ∧ t.value.Evaluable known

structure World.Evaluable (known : String → Prop) (w : World) : Prop where
  store : w.store.Holds (Value.Evaluable known)
  timers : ∀ t ∈ w.timers, t.Evaluable known

namespace World

variable {known : String → Prop} {w u : World}

theorem Evaluable.congr (kept : w.Evaluable known) (store : u.store = w.store)
    (timers : u.timers = w.timers) : u.Evaluable known :=
  ⟨store ▸ kept.store, timers ▸ kept.timers⟩

theorem evaluable_setVar (kept : w.Evaluable known) (i : ScopeId) (name : String) (v : Value)
    (value : v.Evaluable known) : (w.setVar i name v).Evaluable known :=
  ⟨Store.holds_setIn kept.store i name v value, kept.timers⟩

theorem evaluable_makeClosure (kept : w.Evaluable known) (params : List String) (body : Expr)
    (name : Option String) (env : Env) (code : body.Evaluable known) :
    (w.makeClosure params body name env).1.Evaluable known ∧
      (w.makeClosure params body name env).2.Evaluable known := by
  by_cases anonymous : (name.getD "").isEmpty
  · simp only [makeClosure, if_pos anonymous]
    exact ⟨code, kept.congr rfl rfl⟩
  · simp only [makeClosure, if_neg anonymous]
    exact ⟨code, Store.holds_push kept.store _ none (List.forall_mem_singleton.mpr code), kept.timers⟩

theorem evaluable_bindParams (kept : w.Evaluable known) (c : Closure) (args : List Value)
    (values : valuesEvaluable known args) : (w.bindParams c args).2.Evaluable known :=
  ⟨Store.holds_push kept.store _ none
    (bindArgs_holds trivial c.params args ((valuesEvaluable_iff args).mp values)), kept.timers⟩

theorem evaluable_bind (kept : w.Evaluable known) (env : Env) (name : String) (v : Value)
    (value : v.Evaluable known) : (w.bind env name v).2.Evaluable known :=
  ⟨Store.holds_push kept.store _ none (List.forall_mem_singleton.mpr value), kept.timers⟩

end World

section Machine

variable {known : String → Prop}

def Call.Evaluable (known : String → Prop) : Call → Prop
  | .evaluate _ e _ k => e.Evaluable known ∧ framesEvaluable known k
  | .items _ last rest _ k =>
      last.Evaluable known ∧ exprsEvaluable known rest ∧ framesEvaluable known k
  | .arguments _ func done rest _ k =>
      func.Evaluable known ∧ valuesEvaluable known done ∧ exprsEvaluable known rest ∧
        framesEvaluable known k
  | .bindings _ rest body _ k =>
      bindingsEvaluable known rest ∧ body.Evaluable known ∧ framesEvaluable known k
  | .enter _ c args k => c.body.Evaluable known ∧ valuesEvaluable known args ∧ framesEvaluable known k
  | .apply _ func args _ k =>
      func.Evaluable known ∧ valuesEvaluable known args ∧ framesEvaluable known k
  | .resume k v => framesEvaluable known k ∧ v.Evaluable known

def Ending.Evaluable (known : String → Prop) : Ending → Prop
  | .returned _ v => v.Evaluable known
  | .failed cause => cause.Arises known .cps
  | _ => True

def Next.Evaluable (known : String → Prop) : Next → Prop
  | .call c w => c.Evaluable known ∧ w.Evaluable known
  | .ended e w => e.Evaluable known ∧ w.Evaluable known

theorem World.arm_evaluable {w : World} (kept : w.Evaluable known) (m : MachineId)
    (milliseconds : Float) (k : Kont) (v : Value) (frames : framesEvaluable known k)
    (value : v.Evaluable known) : (w.arm m milliseconds k v).Evaluable known := by
  unfold arm
  split
  · exact ⟨rfl, kept⟩
  · exact ⟨rfl, kept⟩
  · dsimp only
    split
    · exact ⟨rfl, kept.congr rfl rfl⟩
    · exact ⟨trivial, kept.store,
        List.forall_mem_append.mpr ⟨kept.timers, List.forall_mem_singleton.mpr ⟨frames, value⟩⟩⟩

namespace Call

variable {m : MachineId} {k : Kont} {w : World}

theorem evaluateExpr_evaluable (e : Expr) (env : Env) (code : e.Evaluable known)
    (frames : framesEvaluable known k) (kept : w.Evaluable known) :
    (evaluateExpr m e env k w).Evaluable known := by
  cases e with
  | hole | binding => exact code.elim
  | num | str | bool => exact ⟨⟨frames, trivial⟩, kept⟩
  | var name =>
      simp only [evaluateExpr]
      split
      · rename_i v found
        exact ⟨⟨frames, Store.holds_get? kept.store env name v found⟩, kept⟩
      · exact ⟨trivial, kept⟩
  | assign target value =>
      cases target with
      | var name => exact ⟨⟨code, trivial, frames⟩, kept⟩
      | _ => exact ⟨trivial, kept⟩
  | binary op left right => exact ⟨⟨code.2.1, ⟨code.1, code.2.2⟩, frames⟩, kept⟩
  | lambda params body name =>
      have made := World.evaluable_makeClosure kept params body name env code
      exact ⟨⟨frames, made.1⟩, made.2⟩
  | cond test yes no => exact ⟨⟨code.1, code.2, frames⟩, kept⟩
  | prog body => exact ⟨⟨trivial, code, frames⟩, kept⟩
  | call func args => exact ⟨⟨code.1, code.2, frames⟩, kept⟩
  | letIn bindings body => exact ⟨⟨code.1, code.2, frames⟩, kept⟩

theorem nextBinding_evaluable (rest : List Binding) (body : Expr) (env : Env)
    (inits : bindingsEvaluable known rest) (code : body.Evaluable known)
    (frames : framesEvaluable known k) (kept : w.Evaluable known) :
    (nextBinding m rest body env k w).Evaluable known := by
  cases rest with
  | nil => exact ⟨⟨code, frames⟩, kept⟩
  | cons b rest =>
      obtain ⟨name, init⟩ := b
      obtain ⟨first, others⟩ := inits
      simp only [nextBinding]
      split
      · exact ⟨⟨⟨⟨others, code⟩, frames⟩, trivial⟩, kept⟩
      · rename_i written
        exact ⟨⟨first.resolve_left written, ⟨others, code⟩, frames⟩, kept⟩

theorem resumeFrame_evaluable (frame : Frame) (v : Value) (top : frame.Evaluable known)
    (frames : framesEvaluable known k) (value : v.Evaluable known) (kept : w.Evaluable known) :
    (resumeFrame frame k v w).Evaluable known := by
  cases frame with
  | final => exact ⟨value, kept⟩
  | assign owner name env =>
      simp only [resumeFrame]
      split
      · exact ⟨⟨frames, value⟩, World.evaluable_setVar kept _ name v value⟩
      · exact ⟨trivial, kept⟩
  | left owner op right env => exact ⟨⟨top.2, ⟨top.1, value⟩, frames⟩, kept⟩
  | right owner op left =>
      simp only [resumeFrame]
      split
      · rename_i result applied
        exact ⟨⟨frames, applyOperator_holds (fun _ => trivial) (fun _ => trivial) op left v result
          top.2 value applied⟩, kept⟩
      · rename_i cause failure
        exact ⟨(applyOperator_error op left v cause failure).arises top.1, kept⟩
  | branch owner yes no env =>
      simp only [resumeFrame]
      split
      · exact ⟨⟨top.1, frames⟩, kept⟩
      · split
        · exact ⟨⟨frames, trivial⟩, kept⟩
        · rename_i written
          exact ⟨⟨top.2.resolve_left written, frames⟩, kept⟩
  | item owner rest env => exact ⟨⟨value, top, frames⟩, kept⟩
  | callee owner args env => exact ⟨⟨value, trivial, top, frames⟩, kept⟩
  | argument owner func done rest env =>
      obtain ⟨function, earlier, code⟩ := top
      refine ⟨⟨function, ?_, code, frames⟩, kept⟩
      rw [valuesEvaluable_iff] at earlier ⊢
      exact List.forall_mem_append.mpr ⟨earlier, List.forall_mem_singleton.mpr value⟩
  | init owner name rest body env =>
      exact ⟨⟨top.1, top.2, frames⟩, World.evaluable_bind kept env name v value⟩
  | timed start env => exact ⟨⟨frames, value⟩, kept.congr rfl rfl⟩

theorem applyBuiltin_evaluable (b : Builtin) (args : List Value) (env : Env)
    (values : valuesEvaluable known args) (frames : framesEvaluable known k)
    (kept : w.Evaluable known) : (applyBuiltin m b args env k w).Evaluable known := by
  have first := firstArg_evaluable values
  obtain ⟨name, mode, action, stamp⟩ := b
  cases mode with
  | sync => exact ⟨trivial, kept⟩
  | cps =>
      cases action with
      | print => exact ⟨⟨frames, trivial⟩, kept.congr rfl rfl⟩
      | time => exact ⟨⟨first, trivial, trivial, frames⟩, kept.congr rfl rfl⟩
      | halt => exact ⟨trivial, kept⟩
      | sleep =>
          simp only [applyBuiltin]
          split
          · exact World.arm_evaluable kept m _ k .no frames trivial
          · rename_i cause failure
            cases value : firstArg args <;> rw [value] at failure <;> cases failure <;>
              exact ⟨trivial, kept⟩
      | callcc => exact ⟨⟨first, ⟨frames, trivial⟩, frames⟩, kept.congr rfl rfl⟩

theorem perform_evaluable (c : Call) (code : c.Evaluable known) (kept : w.Evaluable known) :
    (c.perform w).Evaluable known := by
  cases c with
  | evaluate m e env k => exact evaluateExpr_evaluable e env code.1 code.2 kept
  | items m last rest env k =>
      obtain ⟨value, items, frames⟩ := code
      cases rest with
      | nil => exact ⟨⟨frames, value⟩, kept⟩
      | cons e rest => exact ⟨⟨items.1, items.2, frames⟩, kept⟩
  | arguments m func done rest env k =>
      obtain ⟨function, values, args, frames⟩ := code
      cases rest with
      | nil => exact ⟨⟨function, values, frames⟩, kept⟩
      | cons e rest => exact ⟨⟨args.1, ⟨function, values, args.2⟩, frames⟩, kept⟩
  | bindings m rest body env k => exact nextBinding_evaluable rest body env code.1 code.2.1 code.2.2 kept
  | enter m closure args k =>
      exact ⟨⟨code.1, code.2.2⟩, World.evaluable_bindParams kept closure args code.2.1⟩
  | apply m func args env k =>
      obtain ⟨function, values, frames⟩ := code
      cases func with
      | closure c => exact ⟨⟨function, values, frames⟩, kept⟩
      | builtin b => exact applyBuiltin_evaluable b args env values frames kept
      | continuation stamp inner => exact ⟨⟨function, firstArg_evaluable values⟩, kept⟩
      | _ => exact ⟨trivial, kept⟩
  | resume k v =>
      cases k with
      | nil => exact ⟨trivial, kept⟩
      | cons frame k => exact resumeFrame_evaluable frame v code.1.1 code.1.2 code.2 kept

end Call

structure Config.Evaluable (known : String → Prop) (c : Config) : Prop where
  call : c.call.Evaluable known
  world : c.world.Evaluable known

def Step.Evaluable (known : String → Prop) : Step → Prop
  | .next c => c.Evaluable known
  | .ended e w => e.Evaluable known ∧ w.Evaluable known

theorem Config.step_evaluable (c : Config) (code : c.Evaluable known) : c.step.Evaluable known := by
  obtain ⟨m, legs, call, w⟩ := c
  rcases step_cases m legs call w with bounced | ⟨u, paid, performed⟩
  · rw [bounced]
    exact ⟨code.call, code.world.congr rfl rfl⟩
  · have kept : u.Evaluable known := by
      rcases paid with rfl | ⟨owner, rfl⟩
      · exact code.world
      · exact code.world.congr rfl rfl
    have next := Call.perform_evaluable call code.call kept
    rw [performed]
    cases result : call.perform u with
    | call call' w' =>
        rw [result] at next
        exact ⟨next.1, next.2⟩
    | ended e w' =>
        rw [result] at next
        obtain ⟨after, finished, _⟩ := finish_ended m legs e w'
        obtain ⟨store, timers, _⟩ := finish_keeps m legs e e w' after finished
        rw [advance, finished]
        exact ⟨next.1, next.2.congr store timers⟩

theorem drive_evaluable (bound : Nat) (c : Config) (code : c.Evaluable known) (e : Ending) (w : World)
    (driven : drive bound c = some (e, w)) : e.Evaluable known ∧ w.Evaluable known := by
  induction bound generalizing c with
  | zero => cases driven
  | succ bound ih =>
      have stepped := c.step_evaluable code
      rw [drive] at driven
      split at driven
      · rename_i d next
        rw [next] at stepped
        exact ih d stepped driven
      · rename_i ended
        cases driven
        rw [ended] at stepped
        exact stepped

theorem Config.evaluable_ofProgram {w : World} (kept : w.Evaluable known) (m : MachineId) (e : Expr)
    (env : Env) (code : e.Evaluable known) : (ofProgram m e env w).Evaluable known :=
  ⟨⟨code, trivial, trivial⟩, kept.congr rfl rfl⟩

theorem Config.evaluable_ofTimer {w : World} (kept : w.Evaluable known) (t : Timer)
    (code : t.Evaluable known) : (ofTimer t w).Evaluable known :=
  ⟨code, kept.congr rfl rfl⟩

end Machine

namespace Direct

variable {known : String → Prop} {α β : Type}

def Outcome.Evaluable (known : String → Prop) (post : α → Prop) : Outcome α → Prop
  | .done a w => post a ∧ w.Evaluable known
  | .failed cause w => cause.Arises known .sync ∧ w.Evaluable known
  | .unfinished => True

def Eval.Evaluable (known : String → Prop) (post : α → Prop) (x : Eval α) : Prop :=
  ∀ w, w.Evaluable known → (x w).Evaluable known post

namespace Eval.Evaluable

theorem pure {post : α → Prop} {a : α} (promised : post a) :
    (Eval.pure a).Evaluable known post :=
  fun _ kept => ⟨promised, kept⟩

theorem fail {post : α → Prop} {cause : Failure} (arises : cause.Arises known .sync) :
    (Eval.fail cause : Eval α).Evaluable known post :=
  fun _ kept => ⟨arises, kept⟩

theorem bind {first : α → Prop} {post : β → Prop} {x : Eval α} {f : α → Eval β}
    (here : x.Evaluable known first) (rest : ∀ a, first a → (f a).Evaluable known post) :
    (Eval.bind x f).Evaluable known post := by
  intro w kept
  have outcome := here w kept
  simp only [Eval.bind]
  cases result : x w with
  | done a u =>
      rw [result] at outcome
      exact rest a outcome.1 u outcome.2
  | failed cause u =>
      rw [result] at outcome
      exact outcome
  | unfinished => trivial

theorem read (env : Env) (name : String) :
    (Direct.read env name).Evaluable known (Value.Evaluable known) := by
  intro w kept
  unfold Direct.read
  split
  · rename_i v found
    exact ⟨Store.holds_get? kept.store env name v found, kept⟩
  · exact ⟨trivial, kept⟩

theorem write (env : Env) (name : String) {v : Value} (value : v.Evaluable known) :
    (Direct.write env name v).Evaluable known (Value.Evaluable known) := by
  intro w kept
  unfold Direct.write
  split
  · exact ⟨value, World.evaluable_setVar kept _ name v value⟩
  · exact ⟨trivial, kept⟩

theorem operator {op : String} {a b : Value} (listed : known op) (left : a.Evaluable known)
    (right : b.Evaluable known) :
    (Eval.ofExcept (applyOperator op a b)).Evaluable known (Value.Evaluable known) := by
  cases applied : applyOperator op a b with
  | ok v =>
      exact pure (applyOperator_holds (fun _ => trivial) (fun _ => trivial) op a b v left right applied)
  | error cause => exact fail ((applyOperator_error op a b cause applied).arises listed)

theorem timed (env : Env) {x : Eval Value} (thunk : x.Evaluable known (Value.Evaluable known)) :
    (Direct.timed env x).Evaluable known (Value.Evaluable known) := by
  intro w kept
  have outcome := thunk w.readClock.2 (kept.congr rfl rfl)
  simp only [Direct.timed]
  cases result : x w.readClock.2 with
  | done v u =>
      rw [result] at outcome
      exact ⟨outcome.1, outcome.2.congr rfl rfl⟩
  | failed cause u =>
      rw [result] at outcome
      exact ⟨outcome.1, outcome.2.congr rfl rfl⟩
  | unfinished => trivial

theorem callBuiltin {callThunk : Value → Eval Value}
    (thunk : ∀ f, f.Evaluable known → (callThunk f).Evaluable known (Value.Evaluable known))
    (b : Builtin) {args : List Value} (values : valuesEvaluable known args) (env : Env) :
    (Direct.callBuiltin callThunk b args env).Evaluable known (Value.Evaluable known) := by
  obtain ⟨name, mode, action, stamp⟩ := b
  cases mode with
  | cps => exact fail trivial
  | sync =>
      cases action with
      | print => exact fun w kept => ⟨trivial, kept.congr rfl rfl⟩
      | time => exact timed env (thunk _ (firstArg_evaluable values))
      | halt | sleep | callcc => exact fail rfl

section

variable {eval : Expr → Env → Eval Value}
  (parts : ∀ e env, e.Evaluable known → (eval e env).Evaluable known (Value.Evaluable known))

include parts

theorem evalEach (env : Env) (es : List Expr) (code : exprsEvaluable known es) :
    (Direct.evalEach eval env es).Evaluable known (valuesEvaluable known) := by
  induction es with
  | nil => exact pure trivial
  | cons e es ih =>
      refine bind (parts e env code.1) ?_
      intro v value
      refine bind (ih code.2) ?_
      intro vs values
      exact pure ⟨value, values⟩

theorem evalLast (env : Env) (last : Value) (es : List Expr) (value : last.Evaluable known)
    (code : exprsEvaluable known es) :
    (Direct.evalLast eval env last es).Evaluable known (Value.Evaluable known) := by
  induction es generalizing last with
  | nil => exact pure value
  | cons e es ih => exact bind (parts e env code.1) fun v value => ih v value code.2

theorem evalInit (env : Env) (init : Expr) (code : init.isHole = true ∨ init.Evaluable known) :
    (Direct.evalInit eval env init).Evaluable known (Value.Evaluable known) := by
  unfold Direct.evalInit
  split
  · exact pure trivial
  · rename_i written
    exact parts init env (code.resolve_left written)

theorem evalBindings (env : Env) (bindings : List Binding) (code : bindingsEvaluable known bindings) :
    (Direct.evalBindings eval env bindings).Evaluable known fun _ => True := by
  induction bindings generalizing env with
  | nil => exact pure trivial
  | cons b bindings ih =>
      obtain ⟨name, init⟩ := b
      refine bind (evalInit parts env init code.1) ?_
      intro v value
      have bound : (Eval.update fun w => w.bind env name v).Evaluable known fun _ => True :=
        fun w kept => ⟨trivial, World.evaluable_bind kept env name v value⟩
      exact bind bound fun inner _ => ih inner code.2

end

end Eval.Evaluable

theorem evaluable (bound : Nat) :
    (∀ e env, e.Evaluable known → (eval bound e env).Evaluable known (Value.Evaluable known)) ∧
    ∀ f args env, f.Evaluable known → valuesEvaluable known args →
      (call bound f args env).Evaluable known (Value.Evaluable known) := by
  induction bound with
  | zero => exact ⟨fun _ _ _ _ _ => trivial, fun _ _ _ _ _ _ _ => trivial⟩
  | succ bound ih =>
      obtain ⟨evals, calls⟩ := ih
      refine ⟨?_, ?_⟩
      · intro e env code
        cases e with
        | hole | binding => exact code.elim
        | num | str | bool => exact .pure trivial
        | var name => exact .read env name
        | lambda params body name =>
            exact fun w kept => World.evaluable_makeClosure kept params body name env code
        | assign target value =>
            cases target with
            | var name => exact .bind (evals value env code) fun v value => .write env name value
            | _ => exact .fail trivial
        | binary op left right =>
            refine .bind (evals left env code.2.1) ?_
            intro a first
            refine .bind (evals right env code.2.2) ?_
            intro b second
            exact .operator code.1 first second
        | cond test yes no =>
            refine .bind (evals test env code.1) ?_
            intro v _
            split
            · exact evals yes env code.2.1
            · split
              · exact .pure trivial
              · rename_i written
                exact evals no env (code.2.2.resolve_left written)
        | prog body => exact .evalLast evals env .no body trivial code
        | call func args =>
            refine .bind (evals func env code.1) ?_
            intro f function
            refine .bind (.evalEach evals env args code.2) ?_
            intro vs values
            exact calls f vs env function values
        | letIn bindings body =>
            refine .bind (.evalBindings evals env bindings code.1) ?_
            intro inner _
            exact evals body inner code.2
      · intro f args env function values
        cases f with
        | closure c =>
            have entered : (Eval.update fun w => w.bindParams c args).Evaluable known fun _ => True :=
              fun w kept => ⟨trivial, World.evaluable_bindParams kept c args values⟩
            exact .bind entered fun inner _ => evals c.body inner function
        | builtin b =>
            exact .callBuiltin (fun thunk code => calls thunk [] env code trivial) b values env
        | _ => exact .fail trivial

end Direct

end Trampoline

import Trampoline.Direct

set_option autoImplicit false

namespace Trampoline.Direct

-- A relation between worlds that differ at most in clock, readings and trace, kept by all that an evaluation
-- does to a world. The times that are read in two such worlds are related, too.
structure Framing (related : World → World → Prop) (times : Nat → Nat → Prop) : Prop where
  store : ∀ {w u : World}, related w u → u.store = w.store
  stamps : ∀ {w u : World}, related w u → u.stamps = w.stamps
  stored : ∀ {w u : World} (store : Store), related w u →
    related { w with store := store } { u with store := store }
  stamped : ∀ {w u : World} (stamps : Nat), related w u →
    related { w with stamps := stamps } { u with stamps := stamps }
  noted : ∀ {w u : World} (event : Event), related w u → related (w.note event) (u.note event)
  read : ∀ {w u : World}, related w u →
    times w.readClock.1 u.readClock.1 ∧ related w.readClock.2 u.readClock.2
  reported : ∀ {w u : World} {start start' : Nat} (env : Env), related w u → times start start' →
    related (w.reportElapsed env start) (u.reportElapsed env start')

inductive Outcome.SameResult {α : Type} (related : World → World → Prop) : Outcome α → Outcome α → Prop where
  | done {a : α} {w u : World} : related w u → SameResult related (.done a w) (.done a u)
  | failed {cause : Failure} {w u : World} : related w u → SameResult related (.failed cause w) (.failed cause u)
  | unfinished : SameResult related .unfinished .unfinished

def Eval.Framed {α : Type} (related : World → World → Prop) (x : Eval α) : Prop :=
  ∀ w u, related w u → (x w).SameResult related (x u)

namespace Eval.Framed

variable {related : World → World → Prop} {α β : Type}

theorem pure (a : α) : (Eval.pure a).Framed related := fun _ _ pair => .done pair

theorem fail (cause : Failure) : (Eval.fail cause : Eval α).Framed related := fun _ _ pair => .failed pair

theorem bind {x : Eval α} {f : α → Eval β} (first : x.Framed related) (rest : ∀ a, (f a).Framed related) :
    (Eval.bind x f).Framed related := by
  intro w u pair
  have outcome := first w u pair
  simp only [Eval.bind]
  generalize x w = here at outcome
  generalize x u = there at outcome
  cases outcome with
  | done pair => exact rest _ _ _ pair
  | failed pair => exact .failed pair
  | unfinished => exact .unfinished

theorem ofExcept (result : Except Failure α) : (Eval.ofExcept result).Framed related := by
  cases result with
  | ok a => exact pure a
  | error cause => exact fail cause

section Sequences

variable {eval : Expr → Env → Eval Value} (framed : ∀ e env, (eval e env).Framed related)

include framed

theorem evalEach (env : Env) (es : List Expr) : (Direct.evalEach eval env es).Framed related := by
  induction es with
  | nil => exact pure []
  | cons e es ih => exact bind (framed e env) fun v => bind ih fun vs => pure (v :: vs)

theorem evalLast (env : Env) (last : Value) (es : List Expr) :
    (Direct.evalLast eval env last es).Framed related := by
  induction es generalizing last with
  | nil => exact pure last
  | cons e es ih => exact bind (framed e env) fun v => ih v

theorem evalInit (env : Env) (init : Expr) : (Direct.evalInit eval env init).Framed related := by
  unfold Direct.evalInit
  split
  · exact pure Value.no
  · exact framed init env

end Sequences

variable {times : Nat → Nat → Prop} (framing : Framing related times)

include framing

theorem read (env : Env) (name : String) : (Direct.read env name).Framed related := by
  intro w u pair
  simp only [Direct.read, framing.store pair]
  cases w.store.get? env name with
  | none => exact .failed pair
  | some v => exact .done pair

theorem write (env : Env) (name : String) (v : Value) : (Direct.write env name v).Framed related := by
  intro w u pair
  simp only [Direct.write, World.setVar, framing.store pair]
  cases w.store.target? env name with
  | none => exact .failed pair
  | some i => exact .done (framing.stored _ pair)

theorem makeClosure (params : List String) (body : Expr) (name : Option String) (env : Env) :
    (Eval.update fun w => w.makeClosure params body name env).Framed related := by
  intro w u pair
  have stamped := framing.stamped (w.stamps + 1) pair
  by_cases anonymous : (name.getD "").isEmpty
  · simp only [Eval.update, World.makeClosure, World.fresh, if_pos anonymous, framing.stamps pair]
    exact .done stamped
  · simp only [Eval.update, World.makeClosure, World.fresh, if_neg anonymous, framing.stamps pair,
      framing.store pair]
    exact .done (framing.stored _ stamped)

theorem bindParams (c : Closure) (args : List Value) :
    (Eval.update fun w => w.bindParams c args).Framed related := by
  intro w u pair
  simp only [Eval.update, World.bindParams, framing.store pair]
  exact .done (framing.stored _ pair)

theorem bindName (env : Env) (name : String) (v : Value) :
    (Eval.update fun w => w.bind env name v).Framed related := by
  intro w u pair
  simp only [Eval.update, World.bind, framing.store pair]
  exact .done (framing.stored _ pair)

theorem evalBindings {eval : Expr → Env → Eval Value} (framed : ∀ e env, (eval e env).Framed related)
    (env : Env) (bs : List Binding) : (Direct.evalBindings eval env bs).Framed related := by
  induction bs generalizing env with
  | nil => exact pure env
  | cons b bs ih =>
      obtain ⟨name, init⟩ := b
      exact bind (evalInit framed env init) fun v => bind (bindName framing env name v) fun inner => ih inner

theorem timed (env : Env) {x : Eval Value} (thunk : x.Framed related) :
    (Direct.timed env x).Framed related := by
  intro w u pair
  obtain ⟨starts, pair⟩ := framing.read pair
  have outcome := thunk _ _ pair
  simp only [Direct.timed]
  generalize x w.readClock.2 = here at outcome
  generalize x u.readClock.2 = there at outcome
  cases outcome with
  | done pair => exact .done (framing.reported env pair starts)
  | failed pair => exact .failed (framing.reported env pair starts)
  | unfinished => exact .unfinished

theorem callBuiltin {callThunk : Value → Eval Value} (thunk : ∀ f, (callThunk f).Framed related)
    (b : Builtin) (args : List Value) (env : Env) :
    (Direct.callBuiltin callThunk b args env).Framed related := by
  obtain ⟨name, mode, action, stamp⟩ := b
  cases mode with
  | cps => exact fail _
  | sync =>
      cases action with
      | print =>
          intro w u pair
          simp only [Direct.callBuiltin, Eval.update, World.writeLine, framing.store pair]
          exact .done (framing.noted _ pair)
      | time => exact timed framing env (thunk _)
      | halt => exact fail _
      | sleep => exact fail _
      | callcc => exact fail _

end Eval.Framed

theorem eval_framed {related : World → World → Prop} {times : Nat → Nat → Prop}
    (framing : Framing related times) (bound : Nat) :
    (∀ e env, (eval bound e env).Framed related) ∧
      ∀ func args env, (call bound func args env).Framed related := by
  induction bound with
  | zero => exact ⟨fun _ _ _ _ _ => .unfinished, fun _ _ _ _ _ _ => .unfinished⟩
  | succ bound ih =>
      obtain ⟨evals, calls⟩ := ih
      constructor
      · intro e env
        cases e with
        | num x => exact .pure _
        | str s => exact .pure _
        | bool b => exact .pure _
        | var name => exact .read framing env name
        | assign target value =>
            cases target with
            | var name => exact .bind (evals value env) fun v => .write framing env name v
            | _ => exact .fail _
        | binary op left right =>
            exact .bind (evals left env) fun a => .bind (evals right env) fun b => .ofExcept _
        | lambda params body name => exact .makeClosure framing params body name env
        | cond test yes no =>
            refine .bind (evals test env) fun v => ?_
            split
            · exact evals yes env
            · split
              · exact .pure _
              · exact evals no env
        | prog body => exact .evalLast evals env .no body
        | call func args =>
            exact .bind (evals func env) fun f => .bind (.evalEach evals env args) fun vs => calls f vs env
        | letIn bs body => exact .bind (.evalBindings framing evals env bs) fun inner => evals body inner
        | hole => exact .fail _
        | binding b => exact .fail _
      · intro func args env
        cases func with
        | closure c => exact .bind (.bindParams framing c args) fun inner => evals c.body inner
        | builtin b => exact .callBuiltin framing (fun f => calls f [] env) b args env
        | _ => exact .fail _

end Trampoline.Direct

import Trampoline.Direct

set_option autoImplicit false

namespace Trampoline.Direct

def Eval.Below {α : Type} (x y : Eval α) : Prop := ∀ w, x w ≠ .unfinished → y w = x w

namespace Eval.Below

variable {α β : Type}

theorem rfl {x : Eval α} : x.Below x := fun _ _ => Eq.refl _

theorem bind {x y : Eval α} {f g : α → Eval β} (first : x.Below y) (rest : ∀ a, (f a).Below (g a)) :
    (Eval.bind x f).Below (Eval.bind y g) := by
  intro w finished
  simp only [Eval.bind] at finished ⊢
  cases outcome : x w with
  | unfinished =>
      rw [outcome] at finished
      exact absurd (Eq.refl _) finished
  | failed cause u =>
      rw [first w (by simp [outcome]), outcome]
  | done a u =>
      rw [first w (by simp [outcome]), outcome]
      rw [outcome] at finished
      exact rest a u finished

theorem timed (env : Env) {x y : Eval Value} (thunk : x.Below y) :
    (Direct.timed env x).Below (Direct.timed env y) := by
  intro w finished
  simp only [Direct.timed] at finished ⊢
  cases outcome : x w.readClock.2 with
  | unfinished =>
      rw [outcome] at finished
      exact absurd (Eq.refl _) finished
  | failed cause u => rw [thunk _ (by simp [outcome]), outcome]
  | done v u => rw [thunk _ (by simp [outcome]), outcome]

theorem callBuiltin {x y : Value → Eval Value} (thunk : ∀ f, (x f).Below (y f)) (b : Builtin)
    (args : List Value) (env : Env) :
    (Direct.callBuiltin x b args env).Below (Direct.callBuiltin y b args env) := by
  obtain ⟨name, mode, action, stamp⟩ := b
  cases mode with
  | cps => exact rfl
  | sync =>
      cases action with
      | time => exact timed env (thunk _)
      | _ => exact rfl

section

variable {x y : Expr → Env → Eval Value} (parts : ∀ e env, (x e env).Below (y e env))

include parts

theorem evalEach (env : Env) (es : List Expr) :
    (Direct.evalEach x env es).Below (Direct.evalEach y env es) := by
  induction es with
  | nil => exact rfl
  | cons e es ih => exact bind (parts e env) fun v => bind ih fun vs => rfl

theorem evalLast (env : Env) (last : Value) (es : List Expr) :
    (Direct.evalLast x env last es).Below (Direct.evalLast y env last es) := by
  induction es generalizing last with
  | nil => exact rfl
  | cons e es ih => exact bind (parts e env) fun v => ih v

theorem evalInit (env : Env) (init : Expr) :
    (Direct.evalInit x env init).Below (Direct.evalInit y env init) := by
  unfold Direct.evalInit
  split
  · exact rfl
  · exact parts init env

theorem evalBindings (env : Env) (bs : List Binding) :
    (Direct.evalBindings x env bs).Below (Direct.evalBindings y env bs) := by
  induction bs generalizing env with
  | nil => exact rfl
  | cons b bs ih =>
      obtain ⟨name, init⟩ := b
      exact bind (evalInit parts env init) fun v => bind rfl fun inner => ih inner

end

end Eval.Below

theorem below_deeper (bound : Nat) :
    (∀ e env, (eval bound e env).Below (eval (bound + 1) e env)) ∧
      ∀ func args env, (call bound func args env).Below (call (bound + 1) func args env) := by
  induction bound with
  | zero => exact ⟨fun _ _ _ cut => absurd rfl cut, fun _ _ _ _ cut => absurd rfl cut⟩
  | succ bound ih =>
      obtain ⟨evals, calls⟩ := ih
      constructor
      · intro e env
        cases e with
        | assign target value =>
            cases target with
            | var name => exact .bind (evals value env) fun _ => .rfl
            | _ => exact .rfl
        | binary op left right =>
            exact .bind (evals left env) fun _ => .bind (evals right env) fun _ => .rfl
        | cond test yes no =>
            refine .bind (evals test env) fun v => ?_
            split
            · exact evals yes env
            · split
              · exact .rfl
              · exact evals no env
        | prog body => exact .evalLast evals env .no body
        | call func args =>
            exact .bind (evals func env) fun f => .bind (.evalEach evals env args) fun vs => calls f vs env
        | letIn bs body => exact .bind (.evalBindings evals env bs) fun inner => evals body inner
        | _ => exact .rfl
      · intro func args env
        cases func with
        | closure c =>
            have entered : (Eval.update fun w => w.bindParams c args).Below
                (Eval.update fun w => w.bindParams c args) := .rfl
            exact entered.bind fun inner => evals c.body inner
        | builtin b => exact .callBuiltin (fun f => calls f [] env) b args env
        | _ => exact .rfl

theorem eval_deeper (bound more : Nat) (e : Expr) (env : Env) (w : World) (enough : bound ≤ more)
    (finished : eval bound e env w ≠ .unfinished) : eval more e env w = eval bound e env w := by
  induction enough with
  | refl => rfl
  | @step more _ ih =>
      rw [← ih]
      exact (below_deeper more).1 e env w (ih ▸ finished)

end Trampoline.Direct

import Trampoline.Proofs.Simulation
import Trampoline.Proofs.Twins

set_option autoImplicit false

namespace Trampoline.Direct

-- Two results. One of them may be missing on a side where the bound was smaller.
inductive Outcome.Twin (m : MachineId) {α : Type} (related : Pairing → α → α → Prop) (early late : Prop)
    (pairs : Pairing) : Outcome α → Outcome α → Prop where
  | done {pairs' : Pairing} {a b : α} {w u : World} : pairs.ExtendedBy pairs' → related pairs' a b → w.Twin m pairs' u →
      Twin m related early late pairs (.done a w) (.done b u)
  | failed {pairs' : Pairing} {cause cause' : Failure} {w u : World} : pairs.ExtendedBy pairs' →
      cause.Twin m pairs' cause' → w.Twin m pairs' u →
      Twin m related early late pairs (.failed cause w) (.failed cause' u)
  | unfinished : Twin m related early late pairs .unfinished .unfinished
  | early {o : Outcome α} : early → Twin m related early late pairs .unfinished o
  | late {o : Outcome α} : late → Twin m related early late pairs o .unfinished

def Eval.Twin (m : MachineId) {α : Type} (related : Pairing → α → α → Prop) (early late : Prop) (pairs : Pairing)
    (x y : Eval α) : Prop :=
  ∀ pairs', pairs.ExtendedBy pairs' → ∀ w u : World, w.Twin m pairs' u → (x w).Twin m related early late pairs' (y u)

variable {m : MachineId} {early late : Prop}

theorem Outcome.Twin.back {α : Type} {related : Pairing → α → α → Prop} {pairs pairs' : Pairing} {o o' : Outcome α}
    (twin : o.Twin m related early late pairs' o') (grows : pairs.ExtendedBy pairs') :
    o.Twin m related early late pairs o' := by
  cases twin with
  | done more value world => exact .done (grows.trans more) value world
  | failed more cause world => exact .failed (grows.trans more) cause world
  | unfinished => exact .unfinished
  | early short => exact .early short
  | late short => exact .late short

namespace Eval.Twin

variable {α β : Type} {related : Pairing → α → α → Prop} {related' : Pairing → β → β → Prop} {pairs : Pairing}

theorem pure {a b : α} (value : ∀ pairs', pairs.ExtendedBy pairs' → related pairs' a b) :
    Eval.Twin m related early late pairs (Eval.pure a) (Eval.pure b) :=
  fun pairs' grows _ _ twin => .done (fun _ _ => id) (value pairs' grows) twin

theorem fail {cause cause' : Failure} (same : cause.Twin m pairs cause') :
    Eval.Twin m related early late pairs (Eval.fail cause) (Eval.fail cause') :=
  fun _ grows _ _ twin => .failed (fun _ _ => id) (same.mono grows) twin

theorem bind {x y : Eval α} {f g : α → Eval β} (first : x.Twin m related early late pairs y)
    (rest : ∀ pairs' a b, pairs.ExtendedBy pairs' → related pairs' a b → (f a).Twin m related' early late pairs' (g b)) :
    (Eval.bind x f).Twin m related' early late pairs (Eval.bind y g) := by
  intro pairs' grows w u twin
  have outcome := first pairs' grows w u twin
  simp only [Eval.bind]
  generalize x w = here at outcome
  generalize y u = there at outcome
  cases outcome with
  | @done pairs'' a b w' u' more value world =>
      exact (rest pairs'' a b (grows.trans more) value pairs'' (fun _ _ => id) w' u' world).back more
  | failed more cause world => exact .failed more cause world
  | unfinished => exact .unfinished
  | early short => exact .early short
  | late short =>
      cases here with
      | done a w' => exact .late short
      | failed cause w' => exact .late short
      | unfinished => exact .unfinished

theorem weaken {early' late' : Prop} {x y : Eval α} (twin : x.Twin m related early late pairs y)
    (left : early → early') (right : late → late') : x.Twin m related early' late' pairs y := by
  intro pairs' grows w u world
  have outcome := twin pairs' grows w u world
  generalize x w = here at outcome ⊢
  generalize y u = there at outcome ⊢
  cases outcome with
  | done more value world => exact .done more value world
  | failed more cause world => exact .failed more cause world
  | unfinished => exact .unfinished
  | early short => exact .early (left short)
  | late short => exact .late (right short)

variable (m early late pairs)

abbrev Valued (x y : Eval Value) : Prop := x.Twin m (Value.Twin m) early late pairs y

variable {m early late pairs}

theorem update {f g : World → α × World}
    (kept : ∀ pairs', pairs.ExtendedBy pairs' → ∀ w u : World, w.Twin m pairs' u →
      ∃ pairs'', pairs'.ExtendedBy pairs'' ∧ related pairs'' (f w).1 (g u).1 ∧ (f w).2.Twin m pairs'' (g u).2) :
    Eval.Twin m related early late pairs (Eval.update f) (Eval.update g) := by
  intro pairs' grows w u twin
  obtain ⟨pairs'', more, value, world⟩ := kept pairs' grows w u twin
  exact .done more value world

theorem read (env : Env) (name : String) : Valued m early late pairs (Direct.read env name) (Direct.read env name) := by
  intro pairs' grows w u twin
  have found := twin.store.get? env name
  unfold Direct.read
  generalize w.store.get? env name = v at found
  generalize u.store.get? env name = v' at found
  cases found with
  | none => exact .failed (fun _ _ => id) (.same fun _ => ⟨by simp, by simp⟩) twin
  | some value => exact .done (fun _ _ => id) value twin

theorem write (env : Env) (name : String) {v v' : Value} (value : v.Twin m pairs v') :
    Valued m early late pairs (Direct.write env name v) (Direct.write env name v') := by
  intro pairs' grows w u twin
  unfold Direct.write
  rw [twin.store.target?_eq env name]
  cases w.store.target? env name with
  | none => exact .failed (fun _ _ => id) (.same fun _ => ⟨by simp, by simp⟩) twin
  | some i => exact .done (fun _ _ => id) (value.mono grows) (twin.setVar i name (value.mono grows))

theorem operator (symbol : String) {v v' u u' : Value} (left : v.Twin m pairs v') (right : u.Twin m pairs u') :
    Valued m early late pairs (Eval.ofExcept (applyOperator symbol v u)) (Eval.ofExcept (applyOperator symbol v' u')) := by
  intro pairs' grows w w' twin
  have result := (left.mono grows).operator twin.stamps (right.mono grows) symbol
  generalize applyOperator symbol v u = here at result
  generalize applyOperator symbol v' u' = there at result
  cases result with
  | ok value => exact .done (fun _ _ => id) value twin
  | error cause => exact .failed (fun _ _ => id) cause twin

theorem makeClosure (params : List String) (body : Expr) (name : Option String) (env : Env) :
    Valued m early late pairs (Eval.update fun w => w.makeClosure params body name env)
      (Eval.update fun w => w.makeClosure params body name env) := by
  refine update fun pairs' _ w u twin => ?_
  obtain ⟨value, world⟩ := twin.makeClosure params body name env
  exact ⟨_, pairs'.grows_add _ _, value, world⟩

theorem bindName (env : Env) (name : String) {v v' : Value} (value : v.Twin m pairs v') :
    Eval.Twin m (fun _ inner inner' => inner' = inner) early late pairs (Eval.update fun w => w.bind env name v)
      (Eval.update fun w => w.bind env name v') := by
  refine update fun pairs' grows w u twin => ?_
  obtain ⟨inner, world⟩ := twin.bind env name (value.mono grows)
  exact ⟨pairs', fun _ _ => id, inner, world⟩

theorem bindParams {c c' : Closure} (params : c'.params = c.params) (env : c'.env = c.env) {args args' : List Value}
    (twins : ValuesTwin m pairs args args') :
    Eval.Twin m (fun _ inner inner' => inner' = inner) early late pairs (Eval.update fun w => w.bindParams c args)
      (Eval.update fun w => w.bindParams c' args') := by
  refine update fun pairs' grows w u twin => ?_
  obtain ⟨inner, world⟩ := twin.bindParams params env (twins.mono grows)
  exact ⟨pairs', fun _ _ => id, inner, world⟩

section Sequences

variable {eval eval' : Expr → Env → Eval Value}
  (each : ∀ e env pairs, Valued m early late pairs (eval e env) (eval' e env))

include each

theorem evalEach (env : Env) (es : List Expr) :
    Eval.Twin m (ValuesTwin m) early late pairs (Direct.evalEach eval env es) (Direct.evalEach eval' env es) := by
  induction es generalizing pairs with
  | nil => exact pure fun _ _ => .nil
  | cons e es ih =>
      refine bind (each e env pairs) fun pairs' v v' _ value => ?_
      refine bind (@ih pairs') fun pairs'' vs vs' grows values => ?_
      exact pure fun _ more => .cons (value.mono (grows.trans more)) (values.mono more)

theorem evalLast (env : Env) (es : List Expr) {last last' : Value} (value : last.Twin m pairs last') :
    Valued m early late pairs (Direct.evalLast eval env last es) (Direct.evalLast eval' env last' es) := by
  induction es generalizing pairs last last' with
  | nil => exact pure fun _ grows => value.mono grows
  | cons e es ih => exact bind (each e env pairs) fun _ _ _ _ value => ih value

theorem evalInit (env : Env) (init : Expr) :
    Valued m early late pairs (Direct.evalInit eval env init) (Direct.evalInit eval' env init) := by
  unfold Direct.evalInit
  split
  · exact pure fun _ _ => .no
  · exact each init env pairs

theorem evalBindings (env : Env) (bs : List Binding) :
    Eval.Twin m (fun _ inner inner' => inner' = inner) early late pairs (Direct.evalBindings eval env bs)
      (Direct.evalBindings eval' env bs) := by
  induction bs generalizing pairs env with
  | nil => exact pure fun _ _ => rfl
  | cons b bs ih =>
      obtain ⟨name, init⟩ := b
      refine bind (evalInit each env init) fun pairs' v v' _ value => ?_
      refine bind (bindName env name value) fun pairs'' inner inner' _ same => ?_
      cases same
      exact ih inner

end Sequences

theorem timed (env : Env) {x y : Eval Value} (thunk : Valued m early late pairs x y) :
    Valued m early late pairs (Direct.timed env x) (Direct.timed env y) := by
  intro pairs' grows w u twin
  obtain ⟨start, twin⟩ := twin.readClock
  have outcome := thunk pairs' grows _ _ twin
  simp only [Direct.timed, start]
  generalize x w.readClock.2 = here at outcome
  generalize y u.readClock.2 = there at outcome
  cases outcome with
  | done more value world => exact .done more value (world.reportElapsed env _)
  | failed more cause world => exact .failed more cause (world.reportElapsed env _)
  | unfinished => exact .unfinished
  | early short => exact .early short
  | late short =>
      cases here with
      | unfinished => exact .unfinished
      | _ => exact .late short

theorem callBuiltin {thunk thunk' : Value → Eval Value}
    (thunks : ∀ f f', f.Twin m pairs f' → Valued m early late pairs (thunk f) (thunk' f')) (b : Builtin)
    {args args' : List Value} (twins : ValuesTwin m pairs args args') (env : Env) :
    Valued m early late pairs (Direct.callBuiltin thunk b args env) (Direct.callBuiltin thunk' b args' env) := by
  obtain ⟨name, mode, action, stamp⟩ := b
  have plain {cause : Failure} (bare : ∀ v, cause ≠ .notNumber v ∧ cause ≠ .notFunction v) :
      Valued m early late pairs (Eval.fail cause) (Eval.fail cause) := fail (.same bare)
  cases mode with
  | cps => exact plain fun _ => ⟨by simp, by simp⟩
  | sync =>
      cases action with
      | print =>
          have printed : Valued m early late pairs (Eval.update fun w => (Value.no, w.writeLine env (printText args)))
              (Eval.update fun w => (Value.no, w.writeLine env (printText args'))) := by
            rw [twins.printText_eq]
            exact update fun pairs' _ w u twin => ⟨pairs', fun _ _ => id, .no, twin.writeLine env _⟩
          exact printed
      | time => exact timed env (thunks _ _ twins.firstArg)
      | _ => exact plain fun _ => ⟨by simp, by simp⟩

end Eval.Twin

section Bounds

variable {bound bound' : Nat}
  (evals : ∀ e env pairs, Eval.Twin.Valued m early late pairs (eval bound e env) (eval bound' e env))
  (calls : ∀ f f' args args' env pairs, f.Twin m pairs f' → ValuesTwin m pairs args args' →
    Eval.Twin.Valued m early late pairs (call bound f args env) (call bound' f' args' env))

include evals calls

theorem eval_succ_twin (e : Expr) (env : Env) (pairs : Pairing) :
    Eval.Twin.Valued m early late pairs (eval (bound + 1) e env) (eval (bound' + 1) e env) := by
  cases e with
  | num x => exact .pure fun _ _ => .atom rfl
  | str s => exact .pure fun _ _ => .atom rfl
  | bool b => exact .pure fun _ _ => .atom rfl
  | var name => exact .read env name
  | lambda params body name => exact .makeClosure params body name env
  | hole => exact .fail (.same fun _ => ⟨by simp, by simp⟩)
  | binding b => exact .fail (.same fun _ => ⟨by simp, by simp⟩)
  | prog body => exact .evalLast evals env body .no
  | assign target value =>
      cases target with
      | var name => exact .bind (evals value env pairs) fun _ _ _ _ v => .write env name v
      | _ => exact .fail (.same fun _ => ⟨by simp, by simp⟩)
  | binary op left right =>
      refine .bind (evals left env pairs) fun pairs' a a' _ first => ?_
      refine .bind (evals right env pairs') fun pairs'' b b' grows second => ?_
      exact .operator op (first.mono grows) second
  | cond test yes no =>
      refine .bind (evals test env pairs) fun pairs' v v' _ value => ?_
      rw [value.truthy_eq]
      split
      · exact evals yes env pairs'
      · split
        · exact .pure fun _ _ => .no
        · exact evals no env pairs'
  | call func args =>
      refine .bind (evals func env pairs) fun pairs' f f' _ first => ?_
      refine .bind (Eval.Twin.evalEach evals env args) fun pairs'' vs vs' grows values => ?_
      exact calls f f' vs vs' env pairs'' (first.mono grows) values
  | letIn bs body =>
      refine .bind (Eval.Twin.evalBindings evals env bs) fun pairs' inner inner' _ same => ?_
      cases same
      exact evals body inner pairs'

theorem call_succ_twin {f f' : Value} {args args' : List Value} {pairs : Pairing} (func : f.Twin m pairs f')
    (twins : ValuesTwin m pairs args args') (env : Env) :
    Eval.Twin.Valued m early late pairs (call (bound + 1) f args env) (call (bound' + 1) f' args' env) := by
  cases func with
  | closure pair =>
      refine .bind (Eval.Twin.bindParams rfl rfl twins) fun pairs' inner inner' _ same => ?_
      cases same
      exact evals _ inner pairs'
  | continuation pair frames => exact .fail (.notFunction (.continuation pair frames))
  | atom plain =>
      cases f with
      | builtin b => exact .callBuiltin (fun f f' func => calls f f' [] [] env pairs func .nil) b twins env
      | closure c => cases plain
      | continuation stamp frames => cases plain
      | _ => exact .fail (.notFunction (.atom rfl))

end Bounds

theorem twin_evaluations (m : MachineId) (bound bound' : Nat) :
    (∀ e env pairs, Eval.Twin.Valued m (bound < bound') (bound' < bound) pairs (eval bound e env) (eval bound' e env)) ∧
      ∀ f f' args args' env pairs, f.Twin m pairs f' → ValuesTwin m pairs args args' →
        Eval.Twin.Valued m (bound < bound') (bound' < bound) pairs (call bound f args env) (call bound' f' args' env) := by
  induction bound generalizing bound' with
  | zero =>
      cases bound' with
      | zero => exact ⟨fun _ _ _ _ _ _ _ _ => .unfinished, fun _ _ _ _ _ _ _ _ _ _ _ _ _ => .unfinished⟩
      | succ bound' =>
          exact ⟨fun _ _ _ _ _ _ _ _ => .early (Nat.succ_pos _), fun _ _ _ _ _ _ _ _ _ _ _ _ _ => .early (Nat.succ_pos _)⟩
  | succ bound ih =>
      cases bound' with
      | zero =>
          exact ⟨fun _ _ _ _ _ _ _ _ => .late (Nat.succ_pos _), fun _ _ _ _ _ _ _ _ _ _ _ _ _ => .late (Nat.succ_pos _)⟩
      | succ bound' =>
          obtain ⟨evals, calls⟩ := ih bound'
          simp only [Nat.add_lt_add_iff_right]
          exact ⟨eval_succ_twin evals calls, fun _ _ _ _ env _ func twins => call_succ_twin evals calls func twins env⟩

theorem call_applied_twin {bound bound' : Nat} {bs : List Binding} {body : Expr}
    (rest : ∀ inner pairs, Eval.Twin.Valued m early late pairs
      (Eval.bind (evalBindings (eval bound) inner bs) (eval bound body)) (eval bound' (body.applied bs) inner))
    {pairs : Pairing} {v : Value} {args : List Value} (value : v.Twin m pairs (firstArg args)) (name : String)
    (stamp : Nat) (env : Env) :
    Eval.Twin.Valued m early late pairs
      (Eval.bind (Eval.update fun w => w.bind env name v) fun inner =>
        Eval.bind (evalBindings (eval bound) inner bs) (eval bound body))
      (call (bound' + 1) (.closure ⟨stamp, [name], body.applied bs, none, env⟩) args env) := by
  have entered : (Eval.update fun w => w.bindParams ⟨stamp, [name], body.applied bs, none, env⟩ args)
      = Eval.update fun w => w.bind env name (firstArg args) := rfl
  rw [call, entered]
  refine .bind (.bindName env name value) fun pairs' inner inner' _ same => ?_
  cases same
  exact rest inner pairs'

theorem initial_twin {bound bound' : Nat} {bs : List Binding} {body init : Expr} {env : Env}
    (inits : ∀ pairs, Eval.Twin.Valued m early late pairs (eval bound init env) (eval (bound' + 1) init env))
    (rest : ∀ inner pairs, Eval.Twin.Valued m early late pairs
      (Eval.bind (evalBindings (eval bound) inner bs) (eval bound body)) (eval bound' (body.applied bs) inner))
    (name : String) (stamp : Nat) (pairs : Pairing) :
    Eval.Twin.Valued m early late pairs
      (Eval.bind (evalInit (eval bound) env init) fun v => Eval.bind (Eval.update fun w => w.bind env name v) fun inner =>
        Eval.bind (evalBindings (eval bound) inner bs) (eval bound body))
      (Eval.bind (evalEach (eval (bound' + 1)) env (if init.isHole then [] else [init])) fun vs =>
        call (bound' + 1) (.closure ⟨stamp, [name], body.applied bs, none, env⟩) vs env) := by
  unfold evalInit
  split
  · exact call_applied_twin rest (.no : Value.no.Twin m pairs (firstArg [])) name stamp env
  · have single (f : List Value → Eval Value) :
        Eval.bind (evalEach (eval (bound' + 1)) env [init]) f = Eval.bind (eval (bound' + 1) init env) fun v => f [v] :=
      Eval.bind_assoc _ _ _
    rw [single]
    exact .bind (inits pairs) fun pairs' v v' _ value =>
      call_applied_twin rest (value : v.Twin m pairs' (firstArg [v'])) name stamp env

theorem eval_twin_within {early late : Prop} {bound bound' : Nat}
    (enough : early ∧ bound ≤ bound' ∨ late ∧ bound' ≤ bound) (e : Expr) (env : Env) (pairs : Pairing) :
    Eval.Twin.Valued m early late pairs (eval bound e env) (eval bound' e env) := by
  refine ((twin_evaluations m bound bound').1 e env pairs).weaken (fun less => ?_) (fun less => ?_)
  · rcases enough with ⟨short, _⟩ | ⟨_, least⟩
    · exact short
    · exact absurd less (Nat.not_lt.mpr least)
  · rcases enough with ⟨_, least⟩ | ⟨short, _⟩
    · exact absurd less (Nat.not_lt.mpr least)
    · exact short

-- The bound on one side is large enough for each function to take two from it, or it is the smaller one.
theorem eval_applied_twin {early late : Prop} (bs : List Binding) (body : Expr) (bound bound' : Nat)
    (enough : early ∧ bound + 2 * bs.length + 1 ≤ bound' ∨ late ∧ bound' ≤ bound) (env : Env) (pairs : Pairing) :
    Eval.Twin.Valued m early late pairs (Eval.bind (evalBindings (eval bound) env bs) (eval bound body))
      (eval bound' (body.applied bs) env) := by
  induction bs generalizing bound' env pairs with
  | nil => exact eval_twin_within (enough.imp_left fun ⟨short, least⟩ => ⟨short, Nat.le_of_succ_le least⟩) body env pairs
  | cons b bs ih =>
      obtain ⟨name, init⟩ := b
      rw [List.length_cons] at enough
      by_cases small : bound' < 2
      · have short : late := (enough.resolve_left fun ⟨_, least⟩ => by omega).1
        have cut : eval bound' (body.applied (.mk name init :: bs)) env = fun _ => .unfinished := by
          obtain rfl | rfl : bound' = 0 ∨ bound' = 1 := by omega
          · rfl
          · rfl
        intro pairs' _ w u _
        rw [cut]
        exact .late short
      · obtain ⟨bound', rfl⟩ : ∃ less, bound' = less + 2 := ⟨bound' - 2, by omega⟩
        have rest (inner : Env) (pairs : Pairing) := ih bound'
          (enough.imp (fun ⟨short, least⟩ => ⟨short, by omega⟩) fun ⟨short, least⟩ => ⟨short, by omega⟩) inner pairs
        have inits (pairs : Pairing) :
            Eval.Twin.Valued m early late pairs (eval bound init env) (eval (bound' + 1) init env) :=
          eval_twin_within (enough.imp (fun ⟨short, least⟩ => ⟨short, by omega⟩) fun ⟨short, least⟩ => ⟨short, by omega⟩)
            init env pairs
        have unfolded : Eval.bind (evalBindings (eval bound) env (.mk name init :: bs)) (eval bound body)
            = Eval.bind (evalInit (eval bound) env init) fun v =>
              Eval.bind (Eval.update fun w => w.bind env name v) fun inner =>
                Eval.bind (evalBindings (eval bound) inner bs) (eval bound body) :=
          (Eval.bind_assoc _ _ _).trans (congrArg _ (funext fun v => Eval.bind_assoc _ _ _))
        rw [unfolded]
        intro pairs' _ w u twin
        -- The function is made before its argument is evaluated, with a stamp that the `let` does not give out.
        exact initial_twin inits rest name u.stamps pairs' pairs' (fun _ _ => id) w { u with stamps := u.stamps + 1 }
          twin.skip

end Trampoline.Direct

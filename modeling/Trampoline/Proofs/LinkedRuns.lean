import Trampoline.Program
import Trampoline.Proofs.Links

set_option autoImplicit false

namespace Trampoline

namespace Direct

inductive Outcome.Linked {α : Type} (R : Link → α → α → Prop) (base : World) (l : Link) :
    Outcome α → Outcome α → Prop where
  | done {l' : Link} {a b : α} {w u : World} : l.Extends base l' → R l' a b → w.Linked .sync l' u base →
      Linked R base l (.done a w) (.done b u)
  | failed {l' : Link} {cause cause' : Failure} {w u : World} : l.Extends base l' → cause.Linked l' cause' →
      w.Linked .sync l' u base → Linked R base l (.failed cause w) (.failed cause' u)
  | unfinished : Linked R base l .unfinished .unfinished

-- The link may have been extended before the evaluation begins.
def Eval.Linked {α : Type} (R : Link → α → α → Prop) (base : World) (l : Link) (x y : Eval α) : Prop :=
  ∀ l', l.Extends base l' → ∀ w u, w.Linked .sync l' u base → (x w).Linked R base l' (y u)

theorem Outcome.Linked.before {α : Type} {R : Link → α → α → Prop} {base : World} {l l' : Link} {x y : Outcome α}
    (grown : l.Extends base l') (linked : x.Linked R base l' y) : x.Linked R base l y := by
  cases linked with
  | done further result world => exact .done (grown.trans further) result world
  | failed further cause world => exact .failed (grown.trans further) cause world
  | unfinished => exact .unfinished

namespace Eval.Linked

variable {α β : Type} {R : Link → α → α → Prop} {S : Link → β → β → Prop} {base : World} {l : Link}

theorem pure {a b : α} (result : ∀ l', l.Extends base l' → R l' a b) :
    (Eval.pure a).Linked R base l (Eval.pure b) :=
  fun l' grown _ _ world => .done (.refl base l') (result l' grown) world

theorem fail {cause cause' : Failure} (failure : cause.Linked l cause') :
    (Eval.fail cause : Eval α).Linked R base l (Eval.fail cause') :=
  fun l' grown _ _ world => .failed (.refl base l') (failure.mono grown.toWithin) world

theorem failSame {cause : Failure} (plain : ∀ v, cause ≠ .notNumber v ∧ cause ≠ .notFunction v) :
    (Eval.fail cause : Eval α).Linked R base l (Eval.fail cause) :=
  fail (.same plain)

theorem bind {x y : Eval α} {f g : α → Eval β} (first : x.Linked R base l y)
    (rest : ∀ l', l.Extends base l' → ∀ a b, R l' a b → (f a).Linked S base l' (g b)) :
    (Eval.bind x f).Linked S base l (Eval.bind y g) := by
  intro l' grown w u world
  have outcome := first l' grown w u world
  simp only [Eval.bind]
  generalize x w = here at outcome
  generalize y u = there at outcome
  cases outcome with
  | done further result world =>
      exact .before further (rest _ (grown.trans further) _ _ result _ (.refl base _) _ _ world)
  | failed further cause world => exact .failed further cause world
  | unfinished => exact .unfinished

section Acts

variable {env env' : Env} (envs : env.Linked l env')

include envs

theorem read (name : String) : (Direct.read env name).Linked Value.Linked base l (Direct.read env' name) := by
  intro l' grown w u world
  have found := world.store.get? (envs.mono grown.toWithin) name
  unfold Direct.read
  generalize w.store.get? env name = here at found
  generalize u.store.get? env' name = there at found
  cases found with
  | none => exact .failed (.refl base l') (.same fun _ => ⟨by simp, by simp⟩) world
  | some value => exact .done (.refl base l') value world

theorem write (name : String) {v v' : Value} (value : v.Linked l v') :
    (Direct.write env name v).Linked Value.Linked base l (Direct.write env' name v') := by
  intro l' grown w u world
  have found := world.store.target? (envs.mono grown.toWithin) name
  unfold Direct.write
  generalize w.store.target? env name = here at found
  generalize u.store.target? env' name = there at found
  cases found with
  | none => exact .failed (.refl base l') (.same fun _ => ⟨by simp, by simp⟩) world
  | some pair =>
      have value := value.mono grown.toWithin
      exact .done (.refl base l') value (world.setVar pair name value)

theorem makeClosure (params : List String) (body : Expr) (name : Option String) :
    (Eval.update fun w => w.makeClosure params body name env).Linked Value.Linked base l
      (Eval.update fun w => w.makeClosure params body name env') := by
  intro l' grown w u world
  obtain ⟨_, further, value, after⟩ := world.makeClosure params body name (envs.mono grown.toWithin)
  exact .done further value after

theorem bindName (name : String) {v v' : Value} (value : v.Linked l v') :
    (Eval.update fun w => w.bind env name v).Linked Env.Linked base l
      (Eval.update fun w => w.bind env' name v') := by
  intro l' grown w u world
  obtain ⟨_, further, inner, after⟩ :=
    world.bind (envs.mono grown.toWithin) name (value.mono grown.toWithin)
  exact .done further inner after

theorem timed {x y : Eval Value} (thunk : x.Linked Value.Linked base l y) :
    (Direct.timed env x).Linked Value.Linked base l (Direct.timed env' y) := by
  intro l' grown w u world
  have outcome := thunk l' grown _ _ world.readClock
  simp only [Direct.timed]
  generalize x w.readClock.2 = here at outcome
  generalize y u.readClock.2 = there at outcome
  cases outcome with
  | done further value world =>
      have envs := envs.mono (grown.trans further).toWithin
      exact .done further value (world.reportElapsed envs _ _)
  | failed further cause world =>
      have envs := envs.mono (grown.trans further).toWithin
      exact .failed further cause (world.reportElapsed envs _ _)
  | unfinished => exact .unfinished

theorem callBuiltin {callThunk callThunk' : Value → Eval Value} (b : Builtin) {args args' : List Value}
    (values : ValuesLinked l args args')
    (thunk : ∀ f f', f.Linked l f' → (callThunk f).Linked Value.Linked base l (callThunk' f')) :
    (Direct.callBuiltin callThunk b args env).Linked Value.Linked base l
      (Direct.callBuiltin callThunk' b args' env') := by
  obtain ⟨name, mode, action, stamp⟩ := b
  cases mode with
  | cps => exact failSame fun _ => ⟨by simp, by simp⟩
  | sync =>
      cases action with
      | print =>
          intro l' grown w u world
          simp only [Direct.callBuiltin, Eval.update, values.printText_eq]
          exact .done (.refl base l') .no (world.writeLine (envs.mono grown.toWithin) _)
      | time => exact timed envs (thunk _ _ values.firstArg)
      | halt => exact failSame fun _ => ⟨by simp, by simp⟩
      | sleep => exact failSame fun _ => ⟨by simp, by simp⟩
      | callcc => exact failSame fun _ => ⟨by simp, by simp⟩

end Acts

theorem bindParams {a b : Nat} {params : List String} {body : Expr} {name : Option String} {env env' : Env}
    (envs : env.Linked l env') {args args' : List Value} (values : ValuesLinked l args args') :
    (Eval.update fun w => w.bindParams ⟨a, params, body, name, env⟩ args).Linked Env.Linked base l
      (Eval.update fun w => w.bindParams ⟨b, params, body, name, env'⟩ args') := by
  intro l' grown w u world
  obtain ⟨_, further, inner, after⟩ := world.bindParams (envs.mono grown.toWithin) (values.mono grown.toWithin)
  exact .done further inner after

theorem operator (op : String) {v u v' u' : Value} (left : v.Linked l u) (right : v'.Linked l u') :
    (Eval.ofExcept (applyOperator op v v')).Linked Value.Linked base l
      (Eval.ofExcept (applyOperator op u u')) := by
  intro l' grown w _ world
  have result := (Value.Linked.indistinct world.stamps).applyOperator (left.mono grown.toWithin)
    (right.mono grown.toWithin) op
  generalize applyOperator op v v' = here at result
  generalize applyOperator op u u' = there at result
  cases result with
  | ok value => exact .done (.refl base l') value world
  | error cause => exact .failed (.refl base l') cause world

section Sequences

variable {eval : Expr → Env → Eval Value}
  (linked : ∀ l e env env', env.Linked l env' → (eval e env).Linked Value.Linked base l (eval e env'))

include linked

theorem evalEach {env env' : Env} (envs : env.Linked l env') (es : List Expr) :
    (Direct.evalEach eval env es).Linked ValuesLinked base l (Direct.evalEach eval env' es) := by
  induction es generalizing l with
  | nil => exact pure fun _ _ => .nil
  | cons e es ih =>
      refine bind (linked l e env env' envs) fun l' grown v u value => ?_
      refine bind (ih (envs.mono grown.toWithin)) fun l'' further vs us values => ?_
      exact pure fun _ last => .cons (value.mono (further.trans last).toWithin) (values.mono last.toWithin)

theorem evalLast {env env' : Env} (envs : env.Linked l env') {last last' : Value} (value : last.Linked l last')
    (es : List Expr) :
    (Direct.evalLast eval env last es).Linked Value.Linked base l (Direct.evalLast eval env' last' es) := by
  induction es generalizing l last last' with
  | nil => exact pure fun _ grown => value.mono grown.toWithin
  | cons e es ih =>
      exact bind (linked l e env env' envs) fun l' grown v u value => ih (envs.mono grown.toWithin) value

theorem evalInit {env env' : Env} (envs : env.Linked l env') (init : Expr) :
    (Direct.evalInit eval env init).Linked Value.Linked base l (Direct.evalInit eval env' init) := by
  unfold Direct.evalInit
  split
  · exact pure fun _ _ => .no
  · exact linked l init env env' envs

theorem evalBindings {env env' : Env} (envs : env.Linked l env') (bs : List Binding) :
    (Direct.evalBindings eval env bs).Linked Env.Linked base l (Direct.evalBindings eval env' bs) := by
  induction bs generalizing l env env' with
  | nil => exact pure fun _ grown => envs.mono grown.toWithin
  | cons b bs ih =>
      obtain ⟨name, init⟩ := b
      refine bind (evalInit linked envs init) fun l' grown v u value => ?_
      refine bind (bindName (envs.mono grown.toWithin) name value) fun l'' further inner inner' envs => ?_
      exact ih envs

end Sequences

end Eval.Linked

theorem eval_linked (base : World) (bound : Nat) :
    (∀ l e env env', env.Linked l env' → (eval bound e env).Linked Value.Linked base l (eval bound e env')) ∧
      ∀ l func func' args args' env env', func.Linked l func' → ValuesLinked l args args' → env.Linked l env' →
        (call bound func args env).Linked Value.Linked base l (call bound func' args' env') := by
  induction bound with
  | zero => exact ⟨fun _ _ _ _ _ _ _ _ _ _ => .unfinished, fun _ _ _ _ _ _ _ _ _ _ _ _ _ _ _ => .unfinished⟩
  | succ bound ih =>
      obtain ⟨evals, calls⟩ := ih
      constructor
      · intro l e env env' envs
        cases e with
        | num x => exact .pure fun _ _ => .atom rfl
        | str s => exact .pure fun _ _ => .atom rfl
        | bool b => exact .pure fun _ _ => .atom rfl
        | var name => exact .read envs name
        | assign target value =>
            cases target with
            | var name =>
                exact .bind (evals l value env env' envs) fun l' grown v u value =>
                  .write (envs.mono grown.toWithin) name value
            | _ => exact .failSame fun _ => ⟨by simp, by simp⟩
        | binary op left right =>
            refine .bind (evals l left env env' envs) fun l' grown a b first => ?_
            refine .bind (evals l' right env env' (envs.mono grown.toWithin)) fun l'' further c d second => ?_
            exact .operator op (first.mono further.toWithin) second
        | lambda params body name => exact .makeClosure envs params body name
        | cond test yes no =>
            refine .bind (evals l test env env' envs) fun l' grown v u value => ?_
            have envs := envs.mono grown.toWithin
            rw [value.truthy_eq]
            split
            · exact evals l' yes env env' envs
            · split
              · exact .pure fun _ _ => .no
              · exact evals l' no env env' envs
        | prog body => exact .evalLast evals envs .no body
        | call func args =>
            refine .bind (evals l func env env' envs) fun l' grown f g value => ?_
            refine .bind (.evalEach evals (envs.mono grown.toWithin) args) fun l'' further vs us values => ?_
            exact calls l'' f g vs us env env' (value.mono further.toWithin) values
              (envs.mono (grown.trans further).toWithin)
        | letIn bs body =>
            exact .bind (.evalBindings evals envs bs) fun l' _ inner inner' envs => evals l' body inner inner' envs
        | hole => exact .failSame fun _ => ⟨by simp, by simp⟩
        | binding b => exact .failSame fun _ => ⟨by simp, by simp⟩
      · intro l func func' args args' env env' value values envs
        cases value with
        | atom plain =>
            cases func with
            | closure => cases plain
            | continuation => cases plain
            | builtin b =>
                exact .callBuiltin envs b values fun f f' value => calls l f f' [] [] env env' value .nil envs
            | _ => exact .fail (.notFunction (.atom rfl))
        | closure stamp inner =>
            exact .bind (.bindParams inner values) fun l' _ env env' envs => evals l' _ env env' envs
        | continuation stamp frames => exact .fail (.notFunction (.continuation stamp frames))

end Direct

inductive Call.Linked (l : Link) : Call → Call → Prop where
  | evaluate {m : MachineId} {e : Expr} {env env' : Env} {k k' : Kont} : env.Linked l env' → FramesLinked l k k' →
      Linked l (.evaluate m e env k) (.evaluate m e env' k')
  | items {m : MachineId} {last last' : Value} {rest : List Expr} {env env' : Env} {k k' : Kont} :
      last.Linked l last' → env.Linked l env' → FramesLinked l k k' →
      Linked l (.items m last rest env k) (.items m last' rest env' k')
  | arguments {m : MachineId} {f g : Value} {vs us : List Value} {rest : List Expr} {env env' : Env} {k k' : Kont} :
      f.Linked l g → ValuesLinked l vs us → env.Linked l env' → FramesLinked l k k' →
      Linked l (.arguments m f vs rest env k) (.arguments m g us rest env' k')
  | bindings {m : MachineId} {rest : List Binding} {body : Expr} {env env' : Env} {k k' : Kont} :
      env.Linked l env' → FramesLinked l k k' → Linked l (.bindings m rest body env k) (.bindings m rest body env' k')
  | enter {m : MachineId} {a b : Nat} {params : List String} {body : Expr} {name : Option String} {env env' : Env}
      {vs us : List Value} {k k' : Kont} : env.Linked l env' → ValuesLinked l vs us → FramesLinked l k k' →
      Linked l (.enter m ⟨a, params, body, name, env⟩ vs k) (.enter m ⟨b, params, body, name, env'⟩ us k')
  | apply {m : MachineId} {f g : Value} {vs us : List Value} {env env' : Env} {k k' : Kont} :
      f.Linked l g → ValuesLinked l vs us → env.Linked l env' → FramesLinked l k k' →
      Linked l (.apply m f vs env k) (.apply m g us env' k')
  | resume {k k' : Kont} {v u : Value} : FramesLinked l k k' → v.Linked l u → Linked l (.resume k v) (.resume k' u)

inductive Ending.Linked (l : Link) : Ending → Ending → Prop where
  | returned {m : MachineId} {v u : Value} : v.Linked l u → Linked l (.returned m v) (.returned m u)
  | suspended : Linked l .suspended .suspended
  | halted : Linked l .halted .halted
  | failed {cause cause' : Failure} : cause.Linked l cause' → Linked l (.failed cause) (.failed cause')

inductive Next.Linked (base : World) (l : Link) : Next → Next → Prop where
  | call {l' : Link} {c d : Call} {w u : World} : l.Extends base l' → c.Linked l' d → w.Linked .cps l' u base →
      Linked base l (.call c w) (.call d u)
  | ended {l' : Link} {e e' : Ending} {w u : World} : l.Extends base l' → e.Linked l' e' →
      w.Linked .cps l' u base → Linked base l (.ended e w) (.ended e' u)

section Machines

variable {l : Link} {w u base : World} (linked : w.Linked .cps l u base)

include linked

namespace World.Linked

theorem machine?_eq (m : MachineId) : u.machine? m = w.machine? m := by
  simp only [World.machine?, linked.gear.1]

theorem pending_eq (m : MachineId) : u.pending m = w.pending m := by
  simp only [World.pending, linked.machine?_eq]

theorem canSpend_eq (m : MachineId) : u.canSpend m = w.canSpend m := by
  simp only [World.canSpend, linked.machine?_eq]

theorem updated (m : MachineId) (f : Machine → Machine) :
    (w.updateMachine m f).Linked .cps l (u.updateMachine m f) base :=
  { linked with gear := ⟨congrArg (Array.modify · m f) linked.gear.1, linked.gear.2⟩ }

theorem waiting (m : MachineId) (delay : Float) {k k' : Kont} (frames : FramesLinked l k k') {v v' : Value}
    (value : v.Linked l v') :
    World.Linked .cps l { w with timers := w.timers ++ [⟨m, w.now + delay, k, v⟩] }
      { u with timers := u.timers ++ [⟨m, u.now + delay, k', v'⟩] } base := by
  obtain ⟨machines, timers, now⟩ := linked.gear
  refine { linked with gear := ⟨machines, List.rel_append timers (.cons ⟨rfl, ?_, frames, value⟩ .nil), now⟩ }
  simp only [now]

theorem arm (m : MachineId) (milliseconds : Float) {k k' : Kont} (frames : FramesLinked l k k') {v v' : Value}
    (value : v.Linked l v') : (w.arm m milliseconds k v).Linked base l (u.arm m milliseconds k' v') := by
  have counted := linked.updated m fun machine => { machine with pending := machine.pending + 1 }
  have same : l.Extends base l := .refl base l
  have plain (cause : Failure) (other : ∀ v, cause ≠ .notNumber v ∧ cause ≠ .notFunction v) :
      (Ending.failed cause).Linked l (.failed cause) := .failed (.same other)
  unfold World.arm
  rw [linked.machine?_eq m]
  cases (w.machine? m).map Machine.loop with
  | none => exact .ended same (plain _ fun _ => ⟨by simp, by simp⟩) linked
  | some loop =>
      cases loop with
      | missing => exact .ended same (plain _ fun _ => ⟨by simp, by simp⟩) linked
      | closed =>
          dsimp only
          rw [counted.machine?_eq m]
          exact .ended same (plain _ fun _ => ⟨by simp, by simp⟩) (counted.noted (.inl rfl))
      | running =>
          dsimp only
          rw [counted.machine?_eq m]
          exact .ended same .suspended ((counted.noted (.inl rfl)).waiting m _ frames value)

end World.Linked

namespace Call

theorem evaluateExpr_linked (m : MachineId) (e : Expr) {env env' : Env} (envs : env.Linked l env') {k k' : Kont}
    (frames : FramesLinked l k k') :
    (evaluateExpr m e env k w).Linked base l (evaluateExpr m e env' k' u) := by
  have same : l.Extends base l := .refl base l
  cases e with
  | num x => exact .call same (.resume frames (.atom rfl)) linked
  | str s => exact .call same (.resume frames (.atom rfl)) linked
  | bool b => exact .call same (.resume frames (.atom rfl)) linked
  | var name =>
      have found := linked.store.get? envs name
      simp only [evaluateExpr]
      generalize w.store.get? env name = here at found
      generalize u.store.get? env' name = there at found
      cases found with
      | none => exact .ended same (.failed (.same fun _ => ⟨by simp, by simp⟩)) linked
      | some value => exact .call same (.resume frames value) linked
  | assign target value =>
      cases target with
      | var name => exact .call same (.evaluate envs (.cons (.assign envs) frames)) linked
      | _ => exact .ended same (.failed (.same fun _ => ⟨by simp, by simp⟩)) linked
  | binary op left right => exact .call same (.evaluate envs (.cons (.left envs) frames)) linked
  | lambda params body name =>
      obtain ⟨_, grown, value, after⟩ := linked.makeClosure params body name envs
      exact .call grown (.resume (frames.mono grown.toWithin) value) after
  | cond test yes no => exact .call same (.evaluate envs (.cons (.branch envs) frames)) linked
  | prog body => exact .call same (.items .no envs frames) linked
  | call func args => exact .call same (.evaluate envs (.cons (.callee envs) frames)) linked
  | letIn bs body => exact .call same (.bindings envs frames) linked
  | hole => exact .ended same (.failed (.same fun _ => ⟨by simp, by simp⟩)) linked
  | binding b => exact .ended same (.failed (.same fun _ => ⟨by simp, by simp⟩)) linked

theorem resumeFrame_linked {f g : Frame} (frame : f.Linked l g) {k k' : Kont} (frames : FramesLinked l k k')
    {v v' : Value} (value : v.Linked l v') : (resumeFrame f k v w).Linked base l (resumeFrame g k' v' u) := by
  have same : l.Extends base l := .refl base l
  cases frame with
  | final => exact .ended same (.returned value) linked
  | @assign m name env env' envs =>
      have found := linked.store.target? envs name
      simp only [resumeFrame]
      generalize w.store.target? env name = here at found
      generalize u.store.target? env' name = there at found
      cases found with
      | none => exact .ended same (.failed (.same fun _ => ⟨by simp, by simp⟩)) linked
      | some pair => exact .call same (.resume frames value) (linked.setVar pair name value)
  | left envs => exact .call same (.evaluate envs (.cons (.right value) frames)) linked
  | @right m op left left' first =>
      have result := (Value.Linked.indistinct linked.stamps).applyOperator first value op
      simp only [resumeFrame]
      generalize applyOperator op left v = here at result
      generalize applyOperator op left' v' = there at result
      cases result with
      | ok value => exact .call same (.resume frames value) linked
      | error cause => exact .ended same (.failed cause) linked
  | branch envs =>
      simp only [resumeFrame, value.truthy_eq]
      split
      · exact .call same (.evaluate envs frames) linked
      · split
        · exact .call same (.resume frames .no) linked
        · exact .call same (.evaluate envs frames) linked
  | item envs => exact .call same (.items value envs frames) linked
  | callee envs => exact .call same (.arguments value .nil envs frames) linked
  | argument func values envs =>
      exact .call same (.arguments func (values.append (.cons value .nil)) envs frames) linked
  | @init m name rest body env env' envs =>
      obtain ⟨_, grown, inner, after⟩ := linked.bind envs name value
      exact .call grown (.bindings inner (frames.mono grown.toWithin)) after
  | timed envs => exact .call same (.resume frames value) (linked.reportElapsed envs _ _)

theorem applyBuiltin_linked (m : MachineId) (b : Builtin) {vs us : List Value} (values : ValuesLinked l vs us)
    {env env' : Env} (envs : env.Linked l env') {k k' : Kont} (frames : FramesLinked l k k') :
    (applyBuiltin m b vs env k w).Linked base l (applyBuiltin m b us env' k' u) := by
  have same : l.Extends base l := .refl base l
  obtain ⟨name, mode, action, stamp⟩ := b
  cases mode with
  | sync => exact .ended same (.failed (.same fun _ => ⟨by simp, by simp⟩)) linked
  | cps =>
      cases action with
      | print =>
          simp only [applyBuiltin, values.printText_eq]
          exact .call same (.resume frames .no) (linked.writeLine envs _)
      | time => exact .call same (.apply values.firstArg .nil envs (.cons (.timed envs) frames)) linked.readClock
      | halt => exact .ended same .halted linked
      | sleep =>
          have result := values.firstArg.toNumber
          simp only [applyBuiltin]
          generalize (firstArg vs).toNumber = here at result
          generalize (firstArg us).toNumber = there at result
          cases result with
          | ok number =>
              cases number
              exact linked.arm m _ frames .no
          | error cause => exact .ended same (.failed cause) linked
      | callcc =>
          have stamped : l.Extends base (l.addStamp w.stamps u.stamps) := .addStamp base l _ _
          have frames := frames.mono stamped.toWithin
          have handed : Value.Linked (l.addStamp w.stamps u.stamps) (.continuation w.stamps k)
              (.continuation u.stamps k') := .continuation (.inr ⟨rfl, rfl⟩) frames
          exact .call stamped (.apply (values.firstArg.mono stamped.toWithin) (.cons handed .nil)
            (envs.mono stamped.toWithin) frames) linked.fresh

theorem perform_linked {c d : Call} (calls : c.Linked l d) : (c.perform w).Linked base l (d.perform u) := by
  have same : l.Extends base l := .refl base l
  cases calls with
  | evaluate envs frames => exact evaluateExpr_linked linked _ _ envs frames
  | @items m last last' rest env env' k k' value envs frames =>
      cases rest with
      | nil => exact .call same (.resume frames value) linked
      | cons e rest => exact .call same (.evaluate envs (.cons (.item envs) frames)) linked
  | @arguments m f g vs us rest env env' k k' func values envs frames =>
      cases rest with
      | nil => exact .call same (.apply func values envs frames) linked
      | cons e rest => exact .call same (.evaluate envs (.cons (.argument func values envs) frames)) linked
  | @bindings m rest body env env' k k' envs frames =>
      cases rest with
      | nil => exact .call same (.evaluate envs frames) linked
      | cons b rest =>
          obtain ⟨name, init⟩ := b
          simp only [perform, nextBinding]
          split
          · exact .call same (.resume (.cons (.init envs) frames) .no) linked
          · exact .call same (.evaluate envs (.cons (.init envs) frames)) linked
  | enter envs values frames =>
      obtain ⟨_, grown, inner, after⟩ := linked.bindParams envs values
      exact .call grown (.evaluate inner (frames.mono grown.toWithin)) after
  | @apply m f g vs us env env' k k' func values envs frames =>
      cases func with
      | atom plain =>
          cases f with
          | closure => cases plain
          | continuation => cases plain
          | builtin b => exact applyBuiltin_linked linked m b values envs frames
          | _ => exact .ended same (.failed (.notFunction (.atom rfl))) linked
      | closure stamp inner => exact .call same (.enter inner values frames) linked
      | continuation stamp kept => exact .call same (.resume kept values.firstArg) linked
  | resume frames value =>
      cases frames with
      | nil => exact .ended same .halted linked
      | cons frame frames => exact resumeFrame_linked linked frame frames value

end Call

end Machines

structure Config.Linked (l : Link) (base : World) (c d : Config) : Prop where
  driver : d.driver = c.driver
  legs : d.legs = c.legs
  call : c.call.Linked l d.call
  world : c.world.Linked .cps l d.world base

inductive Step.Linked (base : World) (l : Link) : Step → Step → Prop where
  | next {l' : Link} {c d : Config} : l.Extends base l' → c.Linked l' base d → Linked base l (.next c) (.next d)
  | ended {l' : Link} {e e' : Ending} {w u : World} : l.Extends base l' → e.Linked l' e' →
      w.Linked .cps l' u base → Linked base l (.ended e w) (.ended e' u)

abbrev ReportLinked {α : Type} (R : Link → α → α → Prop) (mode : Mode) (base : World) (l : Link) :
    Option (α × World) → Option (α × World) → Prop :=
  Option.Rel fun here there =>
    ∃ l', l.Extends base l' ∧ R l' here.1 there.1 ∧ here.2.Linked mode l' there.2 base

def Settled.Linked (l : Link) : Settled → Settled → Prop :=
  ResultRelated (Failure.Linked l) (Option.Rel (Value.Linked l))

theorem Settled.Linked.mono {l l' : Link} (within : l.Within l') {result result' : Settled}
    (linked : result.Linked l result') : result.Linked l' result' := by
  cases linked with
  | error cause => exact .error (cause.mono within)
  | ok value =>
      cases value with
      | none => exact .ok .none
      | some value => exact .ok (.some (value.mono within))

section Runs

variable {l : Link} {w u base : World}

theorem ReportLinked.before {α : Type} {R : Link → α → α → Prop} {mode : Mode} {l' : Link}
    {here there : Option (α × World)} (grown : l.Extends base l') (linked : ReportLinked R mode base l' here there) :
    ReportLinked R mode base l here there := by
  cases linked with
  | none => exact .none
  | some both =>
      obtain ⟨l'', further, result, world⟩ := both
      exact .some ⟨l'', grown.trans further, result, world⟩

theorem Call.Linked.checkpoint?_eq {c d : Call} (calls : c.Linked l d) : d.checkpoint? = c.checkpoint? := by
  cases calls with
  | resume frames =>
      cases frames with
      | nil => rfl
      | cons frame => cases frame <;> rfl
  | _ => rfl

theorem World.Linked.countLegs (linked : w.Linked .cps l u base) (m : MachineId) (legs : Nat) :
    (w.countLegs m legs).Linked .cps l (u.countLegs m legs) base := by
  have counted := linked.updated m fun machine => { machine with bounces := machine.bounces + (legs - 1) }
  unfold World.countLegs
  split
  · exact counted.noted (.inl rfl)
  · exact counted

theorem finish_linked (linked : w.Linked .cps l u base) (driver : MachineId) (legs : Nat) {e e' : Ending}
    (endings : e.Linked l e') : (finish driver legs e w).Linked base l (finish driver legs e' u) := by
  cases endings with
  | failed cause => exact .ended (.refl base l) (.failed cause) linked
  | returned value => exact .ended (.refl base l) (.returned value) (linked.countLegs driver legs)
  | suspended => exact .ended (.refl base l) .suspended (linked.countLegs driver legs)
  | halted => exact .ended (.refl base l) .halted (linked.countLegs driver legs)

theorem Step.Linked.before {l' : Link} {s t : Step} (grown : l.Extends base l') (linked : s.Linked base l' t) :
    s.Linked base l t := by
  cases linked with
  | next further configs => exact .next (grown.trans further) configs
  | ended further endings world => exact .ended (grown.trans further) endings world

theorem Config.advance_linked (driver : MachineId) (legs : Nat) {n n' : Next} (nexts : n.Linked base l n') :
    (advance driver legs n).Linked base l (advance driver legs n') := by
  cases nexts with
  | call grown calls world => exact .next grown ⟨rfl, rfl, calls, world⟩
  | ended grown endings world => exact .before grown (finish_linked world driver legs endings)

theorem Config.step_linked {c d : Config} (configs : c.Linked l base d) : c.step.Linked base l d.step := by
  obtain ⟨driver, legs, call, w⟩ := c
  obtain ⟨driver', legs', call', u⟩ := d
  obtain ⟨rfl, rfl, calls, world⟩ := configs
  simp only [step, calls.checkpoint?_eq]
  cases call.checkpoint? with
  | none => exact advance_linked driver' legs' (Call.perform_linked world calls)
  | some point =>
      obtain ⟨m, name⟩ := point
      have spent : (w.spend m).Linked .cps l (u.spend m) base := World.Linked.updated world m _
      have filled : (w.refill driver').Linked .cps l (u.refill driver') base := World.Linked.updated world driver' _
      simp only [World.Linked.canSpend_eq world]
      split
      · exact advance_linked driver' legs' (Call.perform_linked spent calls)
      · exact .next (.refl base l) ⟨rfl, rfl, calls, filled⟩

theorem drive_linked (bound : Nat) {c d : Config} (configs : c.Linked l base d) :
    ReportLinked Ending.Linked .cps base l (drive bound c) (drive bound d) := by
  induction bound generalizing l c d with
  | zero => exact .none
  | succ bound ih =>
      have stepped := Config.step_linked configs
      simp only [drive]
      generalize c.step = here at stepped
      generalize d.step = there at stepped
      cases stepped with
      | next grown configs => exact .before grown (ih configs)
      | ended grown endings world => exact .some ⟨_, grown, endings, world⟩

theorem run_linked (linked : w.Linked .cps l u base) (bound : Nat) (m : MachineId) (e : Expr) {env env' : Env}
    (envs : env.Linked l env') :
    ReportLinked Ending.Linked .cps base l (run bound m e env w) (run bound m e env' u) :=
  drive_linked bound ⟨rfl, rfl, .evaluate envs (.cons .final .nil), linked.updated m _⟩

theorem fire_linked (linked : w.Linked .cps l u base) (bound : Nat) {t t' : Timer} (timers : t.Linked l t') :
    ReportLinked Ending.Linked .cps base l (fire bound t w) (fire bound t' u) := by
  obtain ⟨m, due, k, v⟩ := t
  obtain ⟨m', due', k', v'⟩ := t'
  obtain ⟨rfl, rfl, frames, value⟩ := timers
  exact drive_linked bound ⟨rfl, rfl, .resume frames value, (linked.updated m' _).updated m' _⟩

theorem earliestIn_linked {best best' : Timer × Nat} (bests : best.1.Linked l best'.1 ∧ best'.2 = best.2)
    {others others' : List (Timer × Nat)}
    (rest : List.Forall₂ (fun c c' => c.1.Linked l c'.1 ∧ c'.2 = c.2) others others') :
    (World.earliestIn best others).1.Linked l (World.earliestIn best' others').1 ∧
      (World.earliestIn best' others').2 = (World.earliestIn best others).2 := by
  induction rest generalizing best best' with
  | nil => exact bests
  | @cons c c' _ _ first _ ih =>
      simp only [World.earliestIn, first.1.due, bests.1.due]
      split
      · exact ih first
      · exact ih bests

theorem zipIdx_linked {ts ts' : List Timer} (timers : List.Forall₂ (Timer.Linked l) ts ts') (n : Nat) :
    List.Forall₂ (fun c c' => Timer.Linked l c.1 c'.1 ∧ c'.2 = c.2) (ts.zipIdx n) (ts'.zipIdx n) := by
  induction timers generalizing n with
  | nil => exact .nil
  | cons first _ ih => exact .cons ⟨first, rfl⟩ (ih (n + 1))

theorem eraseIdx_linked {ts ts' : List Timer} (timers : List.Forall₂ (Timer.Linked l) ts ts') (i : Nat) :
    List.Forall₂ (Timer.Linked l) (ts.eraseIdx i) (ts'.eraseIdx i) := by
  induction timers generalizing i with
  | nil => exact .nil
  | cons first rest ih =>
      cases i with
      | zero => exact rest
      | succ i => exact .cons first (ih i)

theorem World.Linked.nextTimer? (linked : w.Linked .cps l u base) :
    Option.Rel (fun here there => here.1.Linked l there.1 ∧ here.2.Linked .cps l there.2 base)
      w.nextTimer? u.nextTimer? := by
  obtain ⟨machines, timers, now⟩ := linked.gear
  simp only [World.nextTimer?]
  generalize w.timers = ts at timers
  generalize u.timers = ts' at timers
  cases timers with
  | nil => exact .none
  | @cons t t' _ _ first rest =>
      have start : (t, 0).1.Linked l (t', 0).1 ∧ (t', 0).2 = (t, 0).2 := ⟨first, rfl⟩
      obtain ⟨best, place⟩ := earliestIn_linked start (zipIdx_linked rest 1)
      refine .some ⟨best, { linked with gear := ⟨machines, ?_, best.due⟩ }⟩
      rw [place]
      exact eraseIdx_linked (.cons first rest) _

abbrev Promise.Linked (l : Link) : Promise → Promise → Prop := Option.Rel (Settled.Linked l)

theorem Promise.ended_linked (linked : w.Linked .cps l u base) (m : MachineId) {e e' : Ending}
    (endings : e.Linked l e') :
    Promise.Linked l ((onEnding none m e).onIdle m w) ((onEnding none m e').onIdle m u) := by
  have idle : ∀ {p p' : Promise}, Promise.Linked l p p' → Promise.Linked l (p.onIdle m w) (p'.onIdle m u) := by
    intro p p' promises
    simp only [onIdle, linked.pending_eq]
    split
    · cases promises with
      | none => exact .some (.ok .none)
      | some settled => exact .some settled
    · exact promises
  cases endings with
  | returned value =>
      refine idle ?_
      simp only [onEnding]
      split
      · exact .some (.ok (.some value))
      · exact .none
  | suspended => exact idle .none
  | halted => exact idle .none
  | failed => exact idle .none

theorem await_linked (linked : w.Linked .cps l u base) (bound : Nat) (m : MachineId) (more : Nat) {p p' : Promise}
    (promises : Promise.Linked l p p') :
    ReportLinked Settled.Linked .cps base l (await bound m more p w) (await bound m more p' u) := by
  induction more generalizing l p p' w u with
  | zero =>
      cases promises with
      | none => exact .none
      | some settled => exact .some ⟨l, .refl base l, settled, linked⟩
  | succ more ih =>
      cases promises with
      | some settled => exact .some ⟨l, .refl base l, settled, linked⟩
      | none =>
          have taken := linked.nextTimer?
          simp only [await]
          generalize w.nextTimer? = here at taken
          generalize u.nextTimer? = there at taken
          cases taken with
          | none => exact .none
          | @some found found' taken =>
              obtain ⟨t, w⟩ := found
              obtain ⟨t', u⟩ := found'
              have fired := fire_linked taken.2 bound taken.1
              simp only
              generalize fire bound t w = here at fired
              generalize fire bound t' u = there at fired
              cases fired with
              | none => exact .none
              | @some report report' fired =>
                  obtain ⟨e, w⟩ := report
                  obtain ⟨e', u⟩ := report'
                  obtain ⟨l', grown, endings, world⟩ := fired
                  have resumed := (ih world (Promise.ended_linked world m endings)).before grown
                  cases endings with
                  | failed cause => exact (ih world (.some (.error cause))).before grown
                  | returned => exact resumed
                  | suspended => exact resumed
                  | halted => exact resumed

theorem World.Linked.closeLoop (linked : w.Linked .cps l u base) (m : MachineId) :
    (w.closeLoop m).Linked .cps l (u.closeLoop m) base := by
  have closed := linked.updated m ({ · with loop := .closed })
  exact { closed with gear := ⟨closed.gear.1, .nil, closed.gear.2.2⟩ }

theorem World.Linked.noteFinished (linked : w.Linked .cps l u base) (m : MachineId) {result result' : Settled}
    (results : result.Linked l result') :
    (w.noteFinished m result).Linked .cps l (u.noteFinished m result') base := by
  cases results with
  | error cause => exact linked
  | ok value =>
      simp only [World.noteFinished, linked.machine?_eq]
      exact linked.noted (.inl rfl)

theorem runToEnd_linked (linked : w.Linked .cps l u base) (bound : Nat) (m : MachineId) (e : Expr) {env env' : Env}
    (envs : env.Linked l env') :
    ReportLinked Settled.Linked .cps base l (runToEnd bound m e env w) (runToEnd bound m e env' u) := by
  have ran := run_linked linked bound m e envs
  simp only [runToEnd]
  generalize run bound m e env w = here at ran
  generalize run bound m e env' u = there at ran
  cases ran with
  | none => exact .none
  | @some report report' ran =>
      obtain ⟨e, w⟩ := report
      obtain ⟨e', u⟩ := report'
      obtain ⟨l', grown, endings, world⟩ := ran
      have awaited := await_linked world bound m bound (Promise.ended_linked world m endings)
      have closed : ReportLinked Settled.Linked .cps base l
          ((await bound m bound ((Promise.onEnding none m e).onIdle m w) w).map fun r => (r.1, r.2.closeLoop m))
          ((await bound m bound ((Promise.onEnding none m e').onIdle m u) u).map fun r => (r.1, r.2.closeLoop m)) := by
        refine rel_map awaited ?_
        rintro ⟨s, w⟩ ⟨s', u⟩ ⟨l'', further, settled, world⟩
        exact ⟨l'', grown.trans further, settled, world.closeLoop m⟩
      cases endings with
      | failed cause => exact .some ⟨l', grown, .error cause, world.closeLoop m⟩
      | returned => exact closed
      | suspended => exact closed
      | halted => exact closed

theorem runAsync_linked (linked : w.Linked .cps l u base) (bound : Nat) (settings : Settings) (budget : Option Int)
    (e : Expr) {env env' : Env} (envs : env.Linked l env') :
    ReportLinked Settled.Linked .cps base l (runAsync bound settings budget e env w)
      (runAsync bound settings budget e env' u) := by
  unfold runAsync
  cases checked : checkBudget settings budget with
  | error cause =>
      have plain : ∀ v, cause ≠ .notNumber v ∧ cause ≠ .notFunction v := by
        unfold checkBudget at checked
        split at checked
        · cases checked
        · split at checked
          · cases checked
          · cases checked
            exact fun _ => ⟨by simp, by simp⟩
      exact .some ⟨l, .refl base l, .error (.same plain), linked⟩
  | ok budget =>
      obtain ⟨machines, timers, now⟩ := linked.gear
      have added : (w.addMachine budget .running).2.Linked .cps l (u.addMachine budget .running).2 base :=
        { linked with gear := ⟨congrArg (Array.push · _) machines, timers, now⟩ }
      have same : (u.addMachine budget .running).1 = (w.addMachine budget .running).1 := congrArg Array.size machines
      have ended := runToEnd_linked added bound (w.addMachine budget .running).1 e envs
      simp only [same]
      refine rel_map ended ?_
      rintro ⟨s, w⟩ ⟨s', u⟩ ⟨l', grown, settled, world⟩
      exact ⟨l', grown, settled, world.noteFinished _ settled⟩

theorem runDirect_linked (linked : w.Linked .sync l u base) (bound : Nat) (e : Expr) {env env' : Env}
    (envs : env.Linked l env') :
    ReportLinked Settled.Linked .sync base l (runDirect bound e env w) (runDirect bound e env' u) := by
  have outcome := (Direct.eval_linked base bound).1 l e env env' envs l (.refl base l) w u linked
  unfold runDirect
  generalize Direct.eval bound e env w = here at outcome
  generalize Direct.eval bound e env' u = there at outcome
  cases outcome with
  | done grown value world => exact .some ⟨_, grown, .ok (.some value), world⟩
  | failed grown cause world => exact .some ⟨_, grown, .error cause, world⟩
  | unfinished => exact .none

theorem runIn_linked {mode : Mode} (linked : w.Linked mode l u base) (bound : Nat) (settings : Settings)
    (budget : Option Int) (e : Expr) {env env' : Env} (envs : env.Linked l env') :
    ReportLinked Settled.Linked mode base l (runIn bound settings budget mode e env w)
      (runIn bound settings budget mode e env' u) := by
  cases mode with
  | sync => exact runDirect_linked linked bound e envs
  | cps => exact runAsync_linked linked bound settings budget e envs

end Runs

end Trampoline

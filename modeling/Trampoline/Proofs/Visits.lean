import Trampoline.Direct
import Trampoline.Proofs.Operators
import Trampoline.Proofs.Origins

set_option autoImplicit false

namespace Trampoline

structure Sight where
  world : World
  origins : Origins
  visits : List Visit := []

def Sight.scene (s : Sight) (root : ScopeId) : Scene := s.world.scene root s.origins

namespace Visiting

inductive Outcome (α : Type) where
  | done (value : α) (s : Sight)
  | failed (cause : Failure) (s : Sight)
  | unfinished (s : Sight)

namespace Outcome

variable {α : Type}

def sight : Outcome α → Sight
  | .done _ s => s
  | .failed _ s => s
  | .unfinished s => s

def forget : Outcome α → Direct.Outcome α
  | .done value s => .done value s.world
  | .failed cause s => .failed cause s.world
  | .unfinished _ => .unfinished

end Outcome

def Eval (α : Type) := Sight → Outcome α

namespace Eval

variable {α β : Type}

def pure (value : α) : Eval α := fun s => .done value s

def bind (x : Eval α) (f : α → Eval β) : Eval β := fun s =>
  match x s with
  | .done value s => f value s
  | .failed cause s => .failed cause s
  | .unfinished s => .unfinished s

instance : Monad Eval where
  pure := Eval.pure
  bind := Eval.bind

def fail (cause : Failure) : Eval α := fun s => .failed cause s

def unfinished : Eval α := fun s => .unfinished s

def lift (x : Direct.Eval α) : Eval α := fun s =>
  match x s.world with
  | .done value w => .done value { s with world := w }
  | .failed cause w => .failed cause { s with world := w }
  | .unfinished => .unfinished s

def make (f : World → α × World) (g : World → Origins → Origins) : Eval α := fun s =>
  .done (f s.world).1 { s with world := (f s.world).2, origins := g s.world s.origins }

def visit (root : ScopeId) (moment : Moment) (site : Site) (env : Env) (x : Eval α) : Eval α := fun s =>
  x { s with visits := (s.scene root).visit moment site env :: s.visits }

def origin (stamp : Nat) (f : Site → Eval α) : Eval α := fun s => f (s.origins.lambdas stamp) s

end Eval

def timed (env : Env) (x : Eval Value) : Eval Value := fun s =>
  let (start, w) := s.world.readClock
  match x { s with world := w } with
  | .done v s => .done v { s with world := s.world.reportElapsed env start }
  | .failed cause s => .failed cause { s with world := s.world.reportElapsed env start }
  | .unfinished s => .unfinished s

def callBuiltin (callThunk : Value → Eval Value) (b : Builtin) (args : List Value) (env : Env) :
    Eval Value :=
  match b.mode, b.action with
  | .cps, _ => Eval.fail (.wrongMode b.name .sync)
  | .sync, .print => Eval.lift (Direct.Eval.update fun w => (.no, w.writeLine env (printText args)))
  | .sync, .time => timed env (callThunk (firstArg args))
  | .sync, .halt => Eval.fail .halted
  | .sync, .sleep => Eval.fail (.cpsOnly "sleep")
  | .sync, .callcc => Eval.fail (.cpsOnly "call/cc")

section Sequences

variable (eval : Expr → Site → Env → Eval Value) (site : Site)

def evalEach (env : Env) : Nat → List Expr → Eval (List Value)
  | _, [] => Eval.pure []
  | i, e :: es => do
      let v ← eval e (.part site (.arg i)) env
      let vs ← evalEach env (i + 1) es
      return v :: vs

def evalLast (env : Env) : Nat → Value → List Expr → Eval Value
  | _, last, [] => Eval.pure last
  | i, _, e :: es => do
      let v ← eval e (.part site (.item i)) env
      evalLast env (i + 1) v es

def evalInit (env : Env) (i : Nat) (init : Expr) : Eval Value :=
  if init.isHole then Eval.pure .no else eval init (.part site (.init i)) env

def evalBindings : Nat → Env → List Binding → Eval Env
  | _, env, [] => Eval.pure env
  | i, env, .mk name init :: bindings => do
      let v ← evalInit eval site env i init
      let inner ← Eval.make (fun w => w.bind env name v) fun w o => w.binding o ⟨site, i⟩ name
      evalBindings (i + 1) inner bindings

end Sequences

mutual

def eval (root : ScopeId) : Nat → Expr → Site → Env → Eval Value
  | 0, _, _, _ => Eval.unfinished
  | bound + 1, e, site, env =>
      Eval.visit root (.evaluates e) site env
        (match e with
        | .num x => Eval.pure (.num x)
        | .str s => Eval.pure (.str s)
        | .bool b => Eval.pure (.bool b)
        | .var name => Eval.lift (Direct.read env name)
        | .assign (.var name) value => do
            let v ← eval root bound value (.part site .value) env
            Eval.visit root (.writes name) site env (Eval.lift (Direct.write env name v))
        | .assign target _ => Eval.fail (.invalidTarget target)
        | .binary op left right => do
            let a ← eval root bound left (.part site .left) env
            let b ← eval root bound right (.part site .right) env
            Eval.lift (Direct.Eval.ofExcept (applyOperator op a b))
        | .lambda params body name =>
            Eval.make (fun w => w.makeClosure params body name env) fun w o => w.making o site name
        | .cond test yes no => do
            let v ← eval root bound test (.part site .test) env
            if v.truthy then eval root bound yes (.part site .yes) env
            else if no.isHole then Eval.pure .no
            else eval root bound no (.part site .no) env
        | .prog body => evalLast (eval root bound) site env 0 .no body
        | .call func args => do
            let f ← eval root bound func (.part site .func) env
            let vs ← evalEach (eval root bound) site env 0 args
            call root bound f vs env
        | .letIn bindings body => do
            let inner ← evalBindings (eval root bound) site 0 env bindings
            eval root bound body (.part site .body) inner
        | .hole => Eval.fail (.notEvaluable .hole)
        | .binding b => Eval.fail (.notEvaluable (.binding b)))

def call (root : ScopeId) : Nat → Value → List Value → Env → Eval Value
  | 0, _, _, _ => Eval.unfinished
  | bound + 1, func, args, env =>
      match func with
      | .closure c =>
          Eval.origin c.stamp fun lambda => do
            let inner ← Eval.make (fun w => w.bindParams c args) fun w o => w.entering o c
            eval root bound c.body (.part lambda .body) inner
      | .builtin b => callBuiltin (fun f => call root bound f [] env) b args env
      | other => Eval.fail (.notFunction other)

end

def Forgets {α : Type} (x : Direct.Eval α) (y : Eval α) : Prop := ∀ s, (y s).forget = x s.world

namespace Forgets

variable {α β : Type}

theorem pure (v : α) : Forgets (Direct.Eval.pure v) (Eval.pure v) := fun _ => rfl

theorem fail (cause : Failure) : Forgets (Direct.Eval.fail cause) (Eval.fail cause : Eval α) :=
  fun _ => rfl

theorem lift (x : Direct.Eval α) : Forgets x (Eval.lift x) := by
  intro s
  simp only [Eval.lift]
  cases x s.world <;> rfl

theorem make (f : World → α × World) (g : World → Origins → Origins) :
    Forgets (Direct.Eval.update f) (Eval.make f g) :=
  fun _ => rfl

theorem visit (root : ScopeId) (moment : Moment) (site : Site) (env : Env) {x : Direct.Eval α}
    {y : Eval α} (forgets : Forgets x y) : Forgets x (Eval.visit root moment site env y) :=
  fun _ => forgets _

theorem bind {x : Direct.Eval α} {y : Eval α} {f : α → Direct.Eval β} {g : α → Eval β}
    (first : Forgets x y) (rest : ∀ a, Forgets (f a) (g a)) :
    Forgets (Direct.Eval.bind x f) (Eval.bind y g) := by
  intro s
  simp only [Direct.Eval.bind, Eval.bind, ← first s]
  cases y s with
  | done a s' => exact rest a s'
  | failed | unfinished => rfl

theorem timed (env : Env) {x : Direct.Eval Value} {y : Eval Value} (thunk : Forgets x y) :
    Forgets (Direct.timed env x) (Visiting.timed env y) := by
  intro s
  have same := thunk { s with world := s.world.readClock.2 }
  simp only [Direct.timed, Visiting.timed, ← same]
  cases y { s with world := s.world.readClock.2 } <;> rfl

theorem callBuiltin {x : Value → Direct.Eval Value} {y : Value → Eval Value}
    (thunk : ∀ f, Forgets (x f) (y f)) (b : Builtin) (args : List Value) (env : Env) :
    Forgets (Direct.callBuiltin x b args env) (Visiting.callBuiltin y b args env) := by
  obtain ⟨name, mode, action, stamp⟩ := b
  cases mode with
  | cps => exact fail _
  | sync =>
      cases action with
      | print => exact lift _
      | time => exact timed env (thunk _)
      | _ => exact fail _

section

variable {x : Expr → Env → Direct.Eval Value} {y : Expr → Site → Env → Eval Value}
  (parts : ∀ e site env, Forgets (x e env) (y e site env)) (site : Site)

include parts

theorem evalEach (env : Env) (i : Nat) (es : List Expr) :
    Forgets (Direct.evalEach x env es) (Visiting.evalEach y site env i es) := by
  induction es generalizing i with
  | nil => exact pure _
  | cons e es ih => exact bind (parts e _ env) fun v => bind (ih (i + 1)) fun vs => pure _

theorem evalLast (env : Env) (i : Nat) (last : Value) (es : List Expr) :
    Forgets (Direct.evalLast x env last es) (Visiting.evalLast y site env i last es) := by
  induction es generalizing i last with
  | nil => exact pure _
  | cons e es ih => exact bind (parts e _ env) fun v => ih (i + 1) v

theorem evalInit (env : Env) (i : Nat) (init : Expr) :
    Forgets (Direct.evalInit x env init) (Visiting.evalInit y site env i init) := by
  unfold Direct.evalInit Visiting.evalInit
  split
  · exact pure _
  · exact parts init _ env

theorem evalBindings (i : Nat) (env : Env) (bs : List Binding) :
    Forgets (Direct.evalBindings x env bs) (Visiting.evalBindings y site i env bs) := by
  induction bs generalizing i env with
  | nil => exact pure _
  | cons b bs ih =>
      obtain ⟨name, init⟩ := b
      exact bind (evalInit parts site env i init) fun v => bind (make _ _) fun inner => ih (i + 1) inner

end

end Forgets

theorem forgets_direct (root : ScopeId) (bound : Nat) :
    (∀ e site env, Forgets (Direct.eval bound e env) (eval root bound e site env)) ∧
      ∀ func args env, Forgets (Direct.call bound func args env) (call root bound func args env) := by
  induction bound with
  | zero => exact ⟨fun _ _ _ _ => rfl, fun _ _ _ _ => rfl⟩
  | succ bound ih =>
      obtain ⟨evals, calls⟩ := ih
      constructor
      · intro e site env
        refine .visit root (.evaluates e) site env ?_
        cases e with
        | num | str | bool => exact .pure _
        | var name => exact .lift _
        | assign target value =>
            cases target with
            | var name => exact .bind (evals value _ env) fun v => .visit root _ site env (.lift _)
            | _ => exact .fail _
        | binary op left right =>
            exact .bind (evals left _ env) fun _ => .bind (evals right _ env) fun _ => .lift _
        | lambda params body name => exact .make _ _
        | cond test yes no =>
            refine .bind (evals test _ env) fun v => ?_
            split
            · exact evals yes _ env
            · split
              · exact .pure _
              · exact evals no _ env
        | prog body => exact .evalLast evals site env 0 .no body
        | call func args =>
            exact .bind (evals func _ env) fun f =>
              .bind (.evalEach evals site env 0 args) fun vs => calls f vs env
        | letIn bs body => exact .bind (.evalBindings evals site 0 env bs) fun inner => evals body _ inner
        | hole | binding => exact .fail _
      · intro func args env
        cases func with
        | closure c =>
            intro s
            exact (Forgets.make (fun w => w.bindParams c args) fun w o => w.entering o c).bind
              (fun inner => evals c.body (.part (s.origins.lambdas c.stamp) .body) inner) s
        | builtin b => exact .callBuiltin (fun f => calls f [] env) b args env
        | _ => exact .fail _

end Visiting

-- All that a world holds has its origin in the text, and all visits so far were as the text has it.
structure Sight.Lexical (root : ScopeId) (s : Sight) : Prop where
  placed : s.world.Placed root s.origins
  visits : ∀ v ∈ s.visits, v.Lexical root

theorem Sight.Lexical.congr {root : ScopeId} {s : Sight} (sound : s.Lexical root) {w : World}
    (store : w.store = s.world.store) (stamps : w.stamps = s.world.stamps)
    (timers : w.timers = s.world.timers) : Sight.Lexical root { s with world := w } :=
  ⟨sound.placed.congr store stamps timers, sound.visits⟩

namespace Visiting

def Outcome.Lexical {α : Type} (root : ScopeId) (before : Scene) (post : Scene → α → Prop) :
    Outcome α → Prop
  | .done value s => s.Lexical root ∧ before.Grows (s.scene root) ∧ post (s.scene root) value
  | .failed cause s => s.Lexical root ∧ before.Grows (s.scene root) ∧
      ∀ x, cause = .undefinedVariable x → ∃ v, s.visits.head? = some v ∧ v.Undefined x
  | .unfinished s => s.Lexical root

theorem Outcome.Lexical.earlier {α : Type} {root : ScopeId} {before after : Scene}
    {post : Scene → α → Prop} {outcome : Outcome α} (sound : outcome.Lexical root after post)
    (grows : before.Grows after) : outcome.Lexical root before post := by
  cases outcome with
  | done value s => exact ⟨sound.1, grows.trans sound.2.1, sound.2.2⟩
  | failed cause s => exact ⟨sound.1, grows.trans sound.2.1, sound.2.2⟩
  | unfinished s => exact sound

def Keeps {α : Type} (root : ScopeId) (sc : Scene) (x : Eval α) (post : Scene → α → Prop) : Prop :=
  ∀ s, s.Lexical root → s.scene root = sc → (x s).Lexical root sc post

namespace Keeps

variable {α β : Type} {root : ScopeId} {sc : Scene} {post : Scene → α → Prop}

theorem pure {v : α} (property : post sc v) : Keeps root sc (Eval.pure v) post := by
  rintro s sound rfl
  exact ⟨sound, .refl, property⟩

theorem fail {cause : Failure} (other : ∀ x, cause ≠ .undefinedVariable x) :
    Keeps root sc (Eval.fail cause) post := by
  rintro s sound rfl
  exact ⟨sound, .refl, fun x same => absurd same (other x)⟩

theorem bind {x : Eval α} {f : α → Eval β} {after : Scene → β → Prop} (first : Keeps root sc x post)
    (rest : ∀ a sc', sc.Grows sc' → post sc' a → Keeps root sc' (f a) after) :
    Keeps root sc (Eval.bind x f) after := by
  intro s sound here
  have begun := first s sound here
  simp only [Eval.bind]
  cases outcome : x s with
  | unfinished s' =>
      rw [outcome] at begun
      exact begun
  | failed cause s' =>
      rw [outcome] at begun
      exact begun
  | done a s' =>
      rw [outcome] at begun
      obtain ⟨sound', grows, property⟩ := begun
      exact (rest a _ grows property s' sound' rfl).earlier grows

theorem make {f : World → α × World} {g : World → Origins → Origins}
    (makes : ∀ w o, w.scene root o = sc → w.Placed root o →
      w.Evolves root o (g w o) (f w).2 ∧ post ((f w).2.scene root (g w o)) (f w).1) :
    Keeps root sc (Eval.make f g) post := by
  rintro s sound rfl
  obtain ⟨evolves, property⟩ := makes s.world s.origins rfl sound.placed
  exact ⟨⟨evolves.placed, sound.visits⟩, evolves.grows, property⟩

theorem origin (f : Site → Eval α) {stamp : Nat}
    (keeps : Keeps root sc (f (sc.origins.lambdas stamp)) post) :
    Keeps root sc (Eval.origin stamp f) post := by
  rintro s sound rfl
  exact keeps s sound rfl

theorem visit {site : Site} {e : Expr} {env : Env} {moment : Moment} {x : Eval α}
    (stands : sc.Shows site e env) (of : moment.Of e) (keeps : Keeps root sc x post) :
    Keeps root sc (Eval.visit root moment site env x) post := by
  rintro s sound rfl
  refine keeps _ ⟨sound.placed, List.forall_mem_cons.mpr ⟨?_, sound.visits⟩⟩ rfl
  exact Scene.visit_lexical stands of

theorem access {site : Site} {e : Expr} {env : Env} {moment : Moment} {x : Direct.Eval α}
    (stands : sc.Shows site e env) (of : moment.Of e)
    (acts : ∀ w o, w.scene root o = sc → w.Placed root o →
      (∃ v w', x w = .done v w' ∧ w.Evolves root o o w' ∧ post (w'.scene root o) v) ∨
        ∃ name, x w = .failed (.undefinedVariable name) w ∧ (sc.visit moment site env).Undefined name) :
    Keeps root sc (Eval.visit root moment site env (Eval.lift x)) post := by
  rintro s sound rfl
  have visits := List.forall_mem_cons.mpr ⟨Scene.visit_lexical stands of, sound.visits⟩
  rcases acts s.world s.origins rfl sound.placed with ⟨v, w, found, evolves, property⟩ | ⟨name, missing, undefined⟩
  · simp only [Eval.visit, Eval.lift, found]
    exact ⟨⟨evolves.placed, visits⟩, evolves.grows, property⟩
  · simp only [Eval.visit, Eval.lift, missing]
    refine ⟨⟨sound.placed, visits⟩, .refl, ?_⟩
    intro x same
    cases same
    exact ⟨_, rfl, undefined⟩

theorem read {site : Site} {env : Env} {name : String} (stands : sc.Shows site (.var name) env) :
    Keeps root sc (Eval.visit root (.evaluates (.var name)) site env (Eval.lift (Direct.read env name)))
      Value.Placed := by
  refine access stands rfl ?_
  rintro w o rfl placed
  unfold Direct.read
  split
  · rename_i v found
    exact .inl ⟨v, w, rfl, placed.evolves, Store.holds_get? placed.store env name v found⟩
  · rename_i missing
    exact .inr ⟨name, rfl, Scene.read_undefined stands.sees missing⟩

theorem write {site : Site} {env : Env} {name : String} {value : Expr} {v : Value}
    (stands : sc.Shows site (.assign (.var name) value) env) (written : v.Placed sc) :
    Keeps root sc (Eval.visit root (.writes name) site env (Eval.lift (Direct.write env name v)))
      Value.Placed := by
  refine access stands ⟨value, rfl⟩ ?_
  rintro w o rfl placed
  unfold Direct.write
  split
  · rename_i i target
    have evolves := World.evolves_setVar placed stands.sees target written
    exact .inl ⟨v, _, rfl, evolves, Value.Placed.grows evolves.grows v written⟩
  · rename_i missing
    exact .inr ⟨name, rfl, Scene.write_undefined stands.sees missing⟩

theorem operator {op : String} {a b : Value} (left : a.Placed sc) (right : b.Placed sc) :
    Keeps root sc (Eval.lift (Direct.Eval.ofExcept (applyOperator op a b))) Value.Placed := by
  cases applied : applyOperator op a b with
  | ok v =>
      have placed : v.Placed sc :=
        applyOperator_holds (fun _ => trivial) (fun _ => trivial) op a b v left right applied
      exact pure placed
  | error cause =>
      have failure := applyOperator_error op a b cause applied
      refine fail ?_
      rintro x rfl
      cases failure

theorem timed (env : Env) {x : Eval Value} {post : Scene → Value → Prop} (thunk : Keeps root sc x post) :
    Keeps root sc (Visiting.timed env x) post := by
  rintro s sound rfl
  have ended := thunk { s with world := s.world.readClock.2 } (sound.congr rfl rfl rfl) rfl
  simp only [Visiting.timed]
  cases outcome : x { s with world := s.world.readClock.2 } with
  | unfinished s' =>
      rw [outcome] at ended
      exact ended
  | failed cause s' =>
      rw [outcome] at ended
      exact ⟨ended.1.congr rfl rfl rfl, ended.2⟩
  | done v s' =>
      rw [outcome] at ended
      exact ⟨ended.1.congr rfl rfl rfl, ended.2⟩

theorem callBuiltin (x : Value → Eval Value) {args : List Value}
    (thunk : Keeps root sc (x (firstArg args)) Value.Placed) (b : Builtin) (env : Env) :
    Keeps root sc (Visiting.callBuiltin x b args env) Value.Placed := by
  obtain ⟨name, mode, action, stamp⟩ := b
  cases mode with
  | cps => exact fail (by simp)
  | sync =>
      cases action with
      | print =>
          rintro s sound rfl
          exact ⟨sound.congr rfl rfl rfl, .refl, trivial⟩
      | time => exact timed env thunk
      | _ => exact fail (by simp)

section

variable {x : Expr → Site → Env → Eval Value} {site : Site} {env : Env}
  (parts : ∀ sc e site env, Scene.Shows sc site e env → Keeps root sc (x e site env) Value.Placed)

include parts

theorem evalEach {func : Expr} {args : List Expr} (i : Nat) (es : List Expr) (left : args.drop i = es)
    (stands : sc.Shows site (.call func args) env) :
    Keeps root sc (Visiting.evalEach x site env i es) valuesPlaced := by
  induction es generalizing i sc with
  | nil => exact pure trivial
  | cons e es ih =>
      obtain ⟨here, rest⟩ := next_of_drop left
      refine bind (parts sc e _ env (stands.part (.arg i) here rfl)) fun v sc' grows value => ?_
      refine bind (ih (i + 1) rest (stands.grows grows)) fun vs sc'' grows' values => ?_
      exact pure ⟨Value.Placed.grows grows' v value, values⟩

theorem evalLast {body : List Expr} (i : Nat) (last : Value) (es : List Expr)
    (left : body.drop i = es) (stands : sc.Shows site (.prog body) env) (value : last.Placed sc) :
    Keeps root sc (Visiting.evalLast x site env i last es) Value.Placed := by
  induction es generalizing i last sc with
  | nil => exact pure value
  | cons e es ih =>
      obtain ⟨here, rest⟩ := next_of_drop left
      refine bind (parts sc e _ env (stands.part (.item i) here rfl)) fun v sc' grows value => ?_
      exact ih (i + 1) v rest (stands.grows grows) value

theorem evalBindings {bindings : List Binding} {body : Expr} (i : Nat) (bs : List Binding)
    (left : bindings.drop i = bs) (node : site.node? = some (.letIn bindings body))
    (sees : sc.Sees (.part site (.init i)) env) :
    Keeps root sc (Visiting.evalBindings x site i env bs) fun sc inner => sc.Sees (.part site .body) inner := by
  induction bs generalizing i sc env with
  | nil => exact pure (Scene.Sees.body node left sees)
  | cons b bs ih =>
      obtain ⟨name, init⟩ := b
      obtain ⟨here, rest⟩ := next_of_drop left
      have initial : Keeps root sc (Visiting.evalInit x site env i init) Value.Placed := by
        unfold Visiting.evalInit
        split
        · exact pure trivial
        · refine parts sc init _ env ⟨?_, sees⟩
          rw [Site.node?_part node, Expr.part?, here]
          rfl
      refine bind initial fun v sc' grows value => ?_
      have bound : Keeps root sc' (Eval.make (fun w => w.bind env name v) fun w o => w.binding o ⟨site, i⟩ name)
          fun sc inner => sc.Sees (.part site (.init (i + 1))) inner := by
        refine make ?_
        rintro w o rfl placed
        exact World.evolves_bind placed ⟨site, i⟩ node left (sees.grows grows) value
      exact bind bound fun inner sc'' _ sees' => ih (i + 1) rest sees'

end

end Keeps

section

variable {root : ScopeId} {bound : Nat} {sc : Scene}
  (evals : ∀ sc e site env, Scene.Shows sc site e env →
    Keeps root sc (eval root bound e site env) Value.Placed)
  (calls : ∀ sc func args env, Value.Placed sc func → valuesPlaced sc args →
    Keeps root sc (call root bound func args env) Value.Placed)

include evals calls

theorem call_keeps {func : Value} {args : List Value} {env : Env} (function : func.Placed sc)
    (values : valuesPlaced sc args) : Keeps root sc (call root (bound + 1) func args env) Value.Placed := by
  cases func with
  | closure c =>
      have entered : Keeps root sc
          (Eval.make (fun w => w.bindParams c args) fun w o => w.entering o c)
          fun sc' inner => sc'.Shows (.part (sc.origins.lambdas c.stamp) .body) c.body inner := by
        refine .make ?_
        rintro w o rfl placed
        exact World.evolves_bindParams placed function values
      change Keeps root sc (Eval.origin c.stamp fun lambda =>
        Eval.bind (Eval.make (fun w => w.bindParams c args) fun w o => w.entering o c)
          fun inner => eval root bound c.body (.part lambda .body) inner) Value.Placed
      exact .origin _ (entered.bind fun inner sc' _ stands => evals sc' c.body _ inner stands)
  | builtin b =>
      exact .callBuiltin (fun f => call root bound f [] env)
        (calls sc _ [] env (firstArg_placed values) trivial) b env
  | _ => exact .fail (by simp)

-- Each part is evaluated at its site; what was known of the whole is known in every later scene.
theorem eval_keeps {e : Expr} {site : Site} {env : Env} (stands : sc.Shows site e env) :
    Keeps root sc (eval root (bound + 1) e site env) Value.Placed := by
  cases e with
  | num | str | bool => exact .visit stands rfl (.pure trivial)
  | var name => exact .read stands
  | assign target value =>
      cases target with
      | var name =>
          refine .visit stands rfl (.bind (evals sc value _ env (stands.part .value rfl rfl)) ?_)
          exact fun v sc' grows placed => .write (stands.grows grows) placed
      | _ => exact .visit stands rfl (.fail (by simp))
  | binary op left right =>
      refine .visit stands rfl (.bind (evals sc left _ env (stands.part .left rfl rfl)) ?_)
      intro a sc' grows first
      refine .bind (evals sc' right _ env ((stands.grows grows).part .right rfl rfl)) ?_
      exact fun b sc'' grows' second => .operator (Value.Placed.grows grows' a first) second
  | lambda params body name =>
      refine .visit stands rfl (.make ?_)
      rintro w o rfl placed
      exact World.evolves_makeClosure placed stands
  | cond test yes no =>
      refine .visit stands rfl (.bind (evals sc test _ env (stands.part .test rfl rfl)) ?_)
      intro v sc' grows _
      split
      · exact evals sc' yes _ env ((stands.grows grows).part .yes rfl rfl)
      · split
        · exact .pure trivial
        · exact evals sc' no _ env ((stands.grows grows).part .no rfl rfl)
  | prog body => exact .visit stands rfl (.evalLast evals 0 .no body rfl stands trivial)
  | call func args =>
      refine .visit stands rfl (.bind (evals sc func _ env (stands.part .func rfl rfl)) ?_)
      intro f sc' grows function
      refine .bind (.evalEach evals 0 args rfl (stands.grows grows)) ?_
      exact fun vs sc'' grows' values =>
        calls sc'' f vs env (Value.Placed.grows grows' f function) values
  | letIn bs body =>
      have sees : sc.Sees (.part site (.init 0)) env := stands.init
      refine .visit stands rfl (.bind (.evalBindings evals 0 bs rfl stands.node sees) ?_)
      exact fun inner sc' grows inside =>
        evals sc' body _ inner ⟨Site.node?_part stands.node .body, inside⟩
  | hole | binding => exact .visit stands rfl (.fail (by simp))

end

theorem keeps (root : ScopeId) (bound : Nat) :
    (∀ sc e site env, Scene.Shows sc site e env →
      Keeps root sc (eval root bound e site env) Value.Placed) ∧
    ∀ sc func args env, Value.Placed sc func → valuesPlaced sc args →
      Keeps root sc (call root bound func args env) Value.Placed := by
  induction bound with
  | zero => exact ⟨fun _ _ _ _ _ _ sound _ => sound, fun _ _ _ _ _ _ _ sound _ => sound⟩
  | succ bound ih =>
      obtain ⟨evals, calls⟩ := ih
      exact ⟨fun sc e site env stands => eval_keeps evals calls stands,
        fun sc func args env function values => call_keeps evals calls function values⟩

end Visiting

end Trampoline

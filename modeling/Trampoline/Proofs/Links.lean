import Trampoline.Machine.Timers
import Trampoline.Proofs.Twins

/-!
Worlds that hold the same things in different places. A link says which scopes and which stamps of one world stand for
which of the other one. What either world holds besides is no matter, and stays as it is.
-/

set_option autoImplicit false

namespace Trampoline

structure Link where
  scopes : Pairing
  stamps : Pairing

namespace Link

def nothing : Link := ⟨fun _ _ => False, fun _ _ => False⟩

structure Within (l l' : Link) : Prop where
  scopes : l.scopes.ExtendedBy l'.scopes
  stamps : l.stamps.ExtendedBy l'.stamps

theorem Within.trans {l l' l'' : Link} (first : l.Within l') (second : l'.Within l'') : l.Within l'' :=
  ⟨first.scopes.trans second.scopes, first.stamps.trans second.stamps⟩

-- Of the scopes that were there at the start none is linked later.
structure Extends (base : World) (l l' : Link) : Prop extends Within l l' where
  new : ∀ {i j : ScopeId}, l'.scopes i j → l.scopes i j ∨ base.store.scopes.size ≤ i

def addScope (l : Link) (i j : ScopeId) : Link := { l with scopes := l.scopes.add i j }

def addStamp (l : Link) (a b : Nat) : Link := { l with stamps := l.stamps.add a b }

theorem within_addScope (l : Link) (i j : ScopeId) : l.Within (l.addScope i j) :=
  ⟨l.scopes.grows_add i j, fun _ _ pair => pair⟩

theorem within_addStamp (l : Link) (a b : Nat) : l.Within (l.addStamp a b) :=
  ⟨fun _ _ pair => pair, l.stamps.grows_add a b⟩

namespace Extends

variable {base : World} {l l' l'' : Link}

theorem refl (base : World) (l : Link) : l.Extends base l :=
  ⟨⟨fun _ _ pair => pair, fun _ _ pair => pair⟩, .inl⟩

theorem trans (first : l.Extends base l') (second : l'.Extends base l'') : l.Extends base l'' := by
  refine ⟨first.toWithin.trans second.toWithin, fun pair => ?_⟩
  rcases second.new pair with before | new
  · exact first.new before
  · exact .inr new

theorem addScope (l : Link) {i : ScopeId} (j : ScopeId) (new : base.store.scopes.size ≤ i) :
    l.Extends base (l.addScope i j) := by
  refine ⟨l.within_addScope i j, ?_⟩
  rintro a b (before | ⟨rfl, rfl⟩)
  · exact .inl before
  · exact .inr new

theorem addStamp (base : World) (l : Link) (a b : Nat) : l.Extends base (l.addStamp a b) :=
  ⟨l.within_addStamp a b, .inl⟩

end Extends

end Link

def Env.Linked (l : Link) (env env' : Env) : Prop := List.Forall₂ l.scopes env.chain env'.chain

mutual

inductive Value.Linked (l : Link) : Value → Value → Prop where
  | atom {v : Value} : v.isAtom = true → Value.Linked l v v
  | closure {a b : Nat} {params : List String} {body : Expr} {name : Option String} {env env' : Env} :
      l.stamps a b → env.Linked l env' →
      Value.Linked l (.closure ⟨a, params, body, name, env⟩) (.closure ⟨b, params, body, name, env'⟩)
  | continuation {a b : Nat} {k k' : Kont} :
      l.stamps a b → FramesLinked l k k' → Value.Linked l (.continuation a k) (.continuation b k')

inductive Frame.Linked (l : Link) : Frame → Frame → Prop where
  | final {m : MachineId} : Frame.Linked l (.final m) (.final m)
  | assign {m : MachineId} {name : String} {env env' : Env} :
      env.Linked l env' → Frame.Linked l (.assign m name env) (.assign m name env')
  | left {m : MachineId} {op : String} {e : Expr} {env env' : Env} :
      env.Linked l env' → Frame.Linked l (.left m op e env) (.left m op e env')
  | right {m : MachineId} {op : String} {v u : Value} :
      Value.Linked l v u → Frame.Linked l (.right m op v) (.right m op u)
  | branch {m : MachineId} {yes no : Expr} {env env' : Env} :
      env.Linked l env' → Frame.Linked l (.branch m yes no env) (.branch m yes no env')
  | item {m : MachineId} {rest : List Expr} {env env' : Env} :
      env.Linked l env' → Frame.Linked l (.item m rest env) (.item m rest env')
  | callee {m : MachineId} {args : List Expr} {env env' : Env} :
      env.Linked l env' → Frame.Linked l (.callee m args env) (.callee m args env')
  | argument {m : MachineId} {f g : Value} {vs us : List Value} {rest : List Expr} {env env' : Env} :
      Value.Linked l f g → ValuesLinked l vs us → env.Linked l env' →
      Frame.Linked l (.argument m f vs rest env) (.argument m g us rest env')
  | init {m : MachineId} {name : String} {rest : List Binding} {body : Expr} {env env' : Env} :
      env.Linked l env' → Frame.Linked l (.init m name rest body env) (.init m name rest body env')
  | timed {start start' : Nat} {env env' : Env} :
      env.Linked l env' → Frame.Linked l (.timed start env) (.timed start' env')

inductive FramesLinked (l : Link) : Kont → Kont → Prop where
  | nil : FramesLinked l [] []
  | cons {f g : Frame} {k k' : Kont} :
      Frame.Linked l f g → FramesLinked l k k' → FramesLinked l (f :: k) (g :: k')

inductive ValuesLinked (l : Link) : List Value → List Value → Prop where
  | nil : ValuesLinked l [] []
  | cons {v u : Value} {vs us : List Value} :
      Value.Linked l v u → ValuesLinked l vs us → ValuesLinked l (v :: vs) (u :: us)

end

section Within

variable {l l' : Link}

theorem Env.Linked.mono (within : l.Within l') {env env' : Env} (linked : env.Linked l env') : env.Linked l' env' :=
  List.Forall₂.imp within.scopes linked

mutual

theorem Value.Linked.mono (within : l.Within l') {v u : Value} (linked : v.Linked l u) : v.Linked l' u := by
  cases linked with
  | atom plain => exact .atom plain
  | closure stamp env => exact .closure (within.stamps _ _ stamp) (env.mono within)
  | continuation stamp frames => exact .continuation (within.stamps _ _ stamp) (frames.mono within)

theorem Frame.Linked.mono (within : l.Within l') {f g : Frame} (linked : f.Linked l g) : f.Linked l' g := by
  cases linked with
  | final => exact .final
  | assign env => exact .assign (env.mono within)
  | left env => exact .left (env.mono within)
  | right value => exact .right (value.mono within)
  | branch env => exact .branch (env.mono within)
  | item env => exact .item (env.mono within)
  | callee env => exact .callee (env.mono within)
  | argument func values env => exact .argument (func.mono within) (values.mono within) (env.mono within)
  | init env => exact .init (env.mono within)
  | timed env => exact .timed (env.mono within)

theorem FramesLinked.mono (within : l.Within l') {k k' : Kont} (linked : FramesLinked l k k') :
    FramesLinked l' k k' := by
  cases linked with
  | nil => exact .nil
  | cons frame rest => exact .cons (frame.mono within) (rest.mono within)

theorem ValuesLinked.mono (within : l.Within l') {vs us : List Value} (linked : ValuesLinked l vs us) :
    ValuesLinked l' vs us := by
  cases linked with
  | nil => exact .nil
  | cons value rest => exact .cons (value.mono within) (rest.mono within)

end

end Within

section Values

variable {l : Link}

theorem Env.Linked.isRoot_eq {env env' : Env} (linked : env.Linked l env') : env'.isRoot = env.isRoot := by
  obtain ⟨scope, outer⟩ := env
  obtain ⟨scope', outer'⟩ := env'
  cases linked with
  | cons _ rest => cases rest <;> rfl

theorem Env.Linked.scope {env env' : Env} (linked : env.Linked l env') : l.scopes env.scope env'.scope := by
  cases linked with
  | cons pair _ => exact pair

namespace Value.Linked

variable {v u v' u' : Value}

theorem no : Value.no.Linked l .no := .atom rfl

theorem shown_eq (linked : v.Linked l u) : u.shown = v.shown := by
  cases linked <;> rfl

theorem text_eq (linked : v.Linked l u) : u.text = v.text := by
  cases linked <;> rfl

theorem truthy_eq (linked : v.Linked l u) : u.truthy = v.truthy := by
  cases linked <;> rfl

theorem same_eq {given given' : Nat} (fair : l.stamps.Fair given given') (linked : v.Linked l u)
    (linked' : v'.Linked l u') : u.same u' = v.same v' := by
  cases linked with
  | atom plain =>
      cases linked' with
      | atom => rfl
      | _ => cases v <;> first | rfl | cases plain
  | closure stamp =>
      cases linked' with
      | atom plain => cases v' <;> first | rfl | cases plain
      | closure stamp' => exact fair.beq stamp stamp'
      | continuation => rfl
  | continuation stamp =>
      cases linked' with
      | atom plain => cases v' <;> first | rfl | cases plain
      | closure => rfl
      | continuation stamp' => exact fair.beq stamp stamp'

theorem toNumber (linked : v.Linked l u) :
    ResultRelated (Failure.Related (Value.Linked l)) Eq v.toNumber u.toNumber := by
  cases linked with
  | @atom v plain => cases v <;> first | exact .ok rfl | exact .error (.notNumber (.atom plain))
  | closure stamp env => exact .error (.notNumber (.closure stamp env))
  | continuation stamp frames => exact .error (.notNumber (.continuation stamp frames))

theorem indistinct {given given' : Nat} (fair : l.stamps.Fair given given') : Value.Indistinct (Value.Linked l) where
  number _ := .atom rfl
  truth _ := .atom rfl
  truthy := truthy_eq
  same := same_eq fair
  toNumber := toNumber

end Value.Linked

namespace ValuesLinked

variable {vs us vs' us' : List Value}

theorem append (front : ValuesLinked l vs us) (back : ValuesLinked l vs' us') :
    ValuesLinked l (vs ++ vs') (us ++ us') := by
  induction vs generalizing us with
  | nil => cases front; exact back
  | cons v vs ih =>
      cases front with
      | cons value rest => exact .cons value (ih rest)

theorem forall₂ (linked : ValuesLinked l vs us) : List.Forall₂ (Value.Linked l) vs us := by
  induction vs generalizing us with
  | nil => cases linked; exact .nil
  | cons v vs ih =>
      cases linked with
      | cons value rest => exact .cons value (ih rest)

theorem firstArg (linked : ValuesLinked l vs us) : (firstArg vs).Linked l (firstArg us) :=
  firstArg_related .no linked.forall₂

theorem printText_eq (linked : ValuesLinked l vs us) : printText us = printText vs :=
  printText_related Value.Linked.text_eq linked.forall₂

end ValuesLinked

abbrev Failure.Linked (l : Link) : Failure → Failure → Prop := Failure.Related (Value.Linked l)

theorem Failure.Linked.mono {l' : Link} (within : l.Within l') {cause cause' : Failure} (linked : cause.Linked l cause') :
    cause.Linked l' cause' := by
  cases linked with
  | notNumber value => exact .notNumber (value.mono within)
  | notFunction value => exact .notFunction (value.mono within)
  | same plain => exact .same plain

end Values

structure Store.Linked (l : Link) (s s' : Store) : Prop where
  fair : l.scopes.Fair s.scopes.size s'.scopes.size
  scopes : ∀ {i j : ScopeId}, l.scopes i j → Option.Rel (Scope.Related (Value.Linked l)) s.scopes[i]? s'.scopes[j]?

structure Store.Confined (l : Link) (s base : Store) : Prop where
  size_le : base.scopes.size ≤ s.scopes.size
  elsewhere : ∀ i, i < base.scopes.size → (∀ j, ¬ l.scopes i j) → s.scopes[i]? = base.scopes[i]?

section Stores

variable {l : Link} {base s s' : Store} {env env' : Env}

namespace Store.Linked

theorem valueIn? (linked : s.Linked l s') (name : String) {i j : ScopeId} (pair : l.scopes i j) :
    Option.Rel (Value.Linked l) (s.valueIn? name i) (s'.valueIn? name j) :=
  rel_bind (linked.scopes pair) fun _ _ scope => scope.get? name

theorem get? (linked : s.Linked l s') (envs : env.Linked l env') (name : String) :
    Option.Rel (Value.Linked l) (s.get? env name) (s'.get? env' name) := by
  unfold Store.get?
  unfold Env.Linked at envs
  generalize env.chain = chain at envs
  generalize env'.chain = chain' at envs
  induction envs with
  | nil => exact .none
  | @cons i j _ _ pair _ ih =>
      have here := linked.valueIn? name pair
      rw [List.findSome?_cons, List.findSome?_cons]
      generalize s.valueIn? name i = v at here
      generalize s'.valueIn? name j = u at here
      cases here with
      | none => exact ih
      | some value => exact .some value

theorem lookup? (linked : s.Linked l s') (envs : env.Linked l env') (name : String) :
    Option.Rel l.scopes (s.lookup? env name) (s'.lookup? env' name) := by
  unfold Store.lookup?
  unfold Env.Linked at envs
  generalize env.chain = chain at envs
  generalize env'.chain = chain' at envs
  induction envs with
  | nil => exact .none
  | @cons i j _ _ pair _ ih =>
      have here := isSome_of_rel (linked.valueIn? name pair)
      rw [List.find?_cons, List.find?_cons, here]
      cases (s.valueIn? name i).isSome with
      | true => exact .some pair
      | false => exact ih

theorem target? (linked : s.Linked l s') (envs : env.Linked l env') (name : String) :
    Option.Rel l.scopes (s.target? env name) (s'.target? env' name) := by
  have found := linked.lookup? envs name
  unfold Store.target?
  generalize s.lookup? env name = here at found
  generalize s'.lookup? env' name = there at found
  cases found with
  | some pair => exact .some pair
  | none =>
      simp only [envs.isRoot_eq]
      split
      · exact .some envs.scope
      · exact .none

theorem output_eq (linked : s.Linked l s') (envs : env.Linked l env') : s'.output env' = s.output env := by
  unfold Store.output
  unfold Env.Linked at envs
  generalize env.chain = chain at envs
  generalize env'.chain = chain' at envs
  induction envs with
  | nil => rfl
  | @cons i j _ _ pair _ ih =>
      have here := linked.scopes pair
      rw [List.findSome?_cons, List.findSome?_cons]
      generalize s.scopes[i]? = scope at here
      generalize s'.scopes[j]? = scope' at here
      cases here with
      | none => exact ih
      | @some scope scope' related =>
          simp only [Option.bind_some, related.out]
          cases scope.out with
          | none => exact ih
          | some stream => rfl

theorem setIn (linked : s.Linked l s') {i j : ScopeId} (pair : l.scopes i j) (name : String) {v u : Value}
    (value : v.Linked l u) : (s.setIn i name v).Linked l (s'.setIn j name u) := by
  refine ⟨by simpa [Store.setIn] using linked.fair, fun {a b} other => ?_⟩
  have both : i = a ↔ j = b :=
    ⟨fun same => linked.fair.left pair (same ▸ other), fun same => linked.fair.right pair (same ▸ other)⟩
  simp only [Store.setIn, Array.getElem?_modify]
  by_cases here : i = a
  · rw [if_pos here, if_pos (both.mp here)]
    exact rel_map (linked.scopes other) fun _ _ scope => scope.set name value
  · rw [if_neg here, if_neg fun there => here (both.mpr there)]
    exact linked.scopes other

theorem mono {l' : Link} (linked : s.Linked l s') (within : l.Within l')
    (fair : l'.scopes.Fair s.scopes.size s'.scopes.size) (same : ∀ {i j}, l'.scopes i j → l.scopes i j) :
    s.Linked l' s' := by
  refine ⟨fair, fun {i j} pair => ?_⟩
  have here := linked.scopes (same pair)
  generalize s.scopes[i]? = scope at here
  generalize s'.scopes[j]? = scope' at here
  cases here with
  | none => exact .none
  | some related => exact .some (related.mono fun _ _ value => value.mono within)

theorem push (linked : s.Linked l s') {scope scope' : Scope}
    (new : scope.Related (Value.Linked (l.addScope s.scopes.size s'.scopes.size)) scope') :
    Store.Linked (l.addScope s.scopes.size s'.scopes.size) ⟨s.scopes.push scope⟩ ⟨s'.scopes.push scope'⟩ := by
  have within := l.within_addScope s.scopes.size s'.scopes.size
  refine ⟨by simpa [Link.addScope] using linked.fair.add, ?_⟩
  rintro i j (before | ⟨rfl, rfl⟩)
  · obtain ⟨left, right⟩ := linked.fair.below before
    have here := linked.scopes before
    simp only [Array.getElem?_push, Nat.ne_of_lt left, Nat.ne_of_lt right, if_false]
    generalize s.scopes[i]? = scope at here
    generalize s'.scopes[j]? = scope' at here
    cases here with
    | none => exact .none
    | some related => exact .some (related.mono fun _ _ value => value.mono within)
  · simp only [Array.getElem?_push_size]
    exact .some new

end Store.Linked

theorem Env.Linked.child (envs : env.Linked l env') (s s' : Store) :
    (s.child env).Linked (l.addScope s.scopes.size s'.scopes.size) (s'.child env') :=
  .cons (.inr ⟨rfl, rfl⟩) (envs.mono (l.within_addScope _ _))

namespace Store.Confined

theorem refl (l : Link) (s : Store) : s.Confined l s := ⟨Nat.le_refl _, fun _ _ _ => rfl⟩

theorem setIn (confined : s.Confined l base) {i j : ScopeId} (pair : l.scopes i j) (name : String) (v : Value) :
    (s.setIn i name v).Confined l base := by
  refine ⟨by simpa [Store.setIn] using confined.size_le, fun a before unlinked => ?_⟩
  have other : i ≠ a := by
    rintro rfl
    exact unlinked j pair
  rw [← confined.elsewhere a before unlinked, Store.setIn, Array.getElem?_modify, if_neg other]

theorem push (confined : s.Confined l base) (j : ScopeId) (scope : Scope) :
    Store.Confined (l.addScope s.scopes.size j) ⟨s.scopes.push scope⟩ base := by
  have size_le := confined.size_le
  refine ⟨by simp only [Array.size_push]; omega, fun a before unlinked => ?_⟩
  have old := confined.elsewhere a before fun b pair => unlinked b (.inl pair)
  rw [← old, Array.getElem?_push, if_neg (by omega)]

end Store.Confined

end Stores

structure Timer.Linked (l : Link) (t t' : Timer) : Prop where
  machine : t'.machine = t.machine
  due : t'.due = t.due
  kont : FramesLinked l t.kont t'.kont
  value : t.value.Linked l t'.value

theorem Timer.Linked.mono {l l' : Link} (within : l.Within l') {t t' : Timer} (linked : t.Linked l t') :
    t.Linked l' t' :=
  ⟨linked.machine, linked.due, linked.kont.mono within, linked.value.mono within⟩

def Event.SameUpToTime (a b : Event) : Prop :=
  a = b ∨ ∃ stream time time',
    a = .line stream (World.elapsedText time) ∧ b = .line stream (World.elapsedText time')

-- A direct evaluation leaves machines, timers and the time alone; a machine has its like in the other world.
def World.Geared (l : Link) (w u base : World) : Mode → Prop
  | .sync => w.machines = base.machines ∧ w.timers = base.timers ∧ w.now = base.now
  | .cps => u.machines = w.machines ∧ List.Forall₂ (Timer.Linked l) w.timers u.timers ∧ u.now = w.now

-- Two worlds in which programs of a mode do the same, and what the first one was at the start. Neither the clocks
-- nor the readings are compared.
structure World.Linked (mode : Mode) (l : Link) (w u base : World) : Prop where
  store : w.store.Linked l u.store
  confined : w.store.Confined l base.store
  stamps : l.stamps.Fair w.stamps u.stamps
  given : base.stamps ≤ w.stamps
  gear : World.Geared l w u base mode
  trace : List.Forall₂ Event.SameUpToTime w.trace.toList u.trace.toList

theorem World.Geared.mono {l l' : Link} (within : l.Within l') {w u base : World} {mode : Mode}
    (gear : World.Geared l w u base mode) : World.Geared l' w u base mode := by
  cases mode with
  | sync => exact gear
  | cps => exact ⟨gear.1, gear.2.1.imp fun _ _ timer => timer.mono within, gear.2.2⟩

section Worlds

variable {mode : Mode} {l : Link} {w u base : World} {env env' : Env}

theorem World.linked_nothing (gear : World.Geared .nothing w u w mode) (silent : w.trace = #[]) (silent' : u.trace = #[]) :
    w.Linked mode .nothing u w := by
  refine ⟨⟨⟨False.elim, False.elim, False.elim⟩, False.elim⟩, .refl _ _,
    ⟨False.elim, False.elim, False.elim⟩, Nat.le_refl _, gear, ?_⟩
  rw [silent, silent']
  exact .nil

namespace World.Linked

theorem noted (linked : w.Linked mode l u base) {event event' : Event} (same : event.SameUpToTime event') :
    (w.note event).Linked mode l (u.note event') base := by
  refine { linked with trace := ?_ }
  simp only [note, Array.toList_push]
  exact List.rel_append linked.trace (.cons same .nil)

theorem writeLine (linked : w.Linked mode l u base) (envs : env.Linked l env') (text : String) :
    (w.writeLine env text).Linked mode l (u.writeLine env' text) base := by
  rw [World.writeLine, World.writeLine, linked.store.output_eq envs]
  exact linked.noted (.inl rfl)

theorem readClock (linked : w.Linked mode l u base) : w.readClock.2.Linked mode l u.readClock.2 base :=
  { linked with }

theorem reportElapsed (linked : w.Linked mode l u base) (envs : env.Linked l env') (start start' : Nat) :
    (w.reportElapsed env start).Linked mode l (u.reportElapsed env' start') base := by
  have output : u.readClock.2.store.output env' = w.readClock.2.store.output env := linked.store.output_eq envs
  simp only [World.reportElapsed, World.writeLine, output]
  exact linked.readClock.noted (.inr ⟨_, _, _, rfl, rfl⟩)

theorem setVar (linked : w.Linked mode l u base) {i j : ScopeId} (pair : l.scopes i j) (name : String) {v v' : Value}
    (value : v.Linked l v') : (w.setVar i name v).Linked mode l (u.setVar j name v') base :=
  { linked with store := linked.store.setIn pair name value, confined := linked.confined.setIn pair name v }

theorem pushed (linked : w.Linked mode l u base) {scope scope' : Scope}
    (new : scope.Related (Value.Linked (l.addScope w.store.scopes.size u.store.scopes.size)) scope') :
    l.Extends base (l.addScope w.store.scopes.size u.store.scopes.size) ∧
      World.Linked mode (l.addScope w.store.scopes.size u.store.scopes.size)
        { w with store := ⟨w.store.scopes.push scope⟩ } { u with store := ⟨u.store.scopes.push scope'⟩ } base :=
  ⟨.addScope l _ linked.confined.size_le,
    { linked with
      store := linked.store.push new
      confined := linked.confined.push _ scope
      gear := linked.gear.mono (l.within_addScope _ _) }⟩

theorem bind (linked : w.Linked mode l u base) (envs : env.Linked l env') (name : String) {v v' : Value}
    (value : v.Linked l v') :
    ∃ l', l.Extends base l' ∧ (w.bind env name v).1.Linked l' (u.bind env' name v').1 ∧
      (w.bind env name v).2.Linked mode l' (u.bind env' name v').2 base := by
  have within := l.within_addScope w.store.scopes.size u.store.scopes.size
  obtain ⟨grown, after⟩ :=
    linked.pushed (Scope.ofBindings_related (entry_related name (value.mono within)) Option.none)
  exact ⟨_, grown, envs.child w.store u.store, after⟩

theorem bindParams (linked : w.Linked mode l u base) {a b : Nat} {params : List String} {body : Expr}
    {name : Option String} (envs : env.Linked l env') {args args' : List Value} (values : ValuesLinked l args args') :
    ∃ l', l.Extends base l' ∧
      (w.bindParams ⟨a, params, body, name, env⟩ args).1.Linked l'
        (u.bindParams ⟨b, params, body, name, env'⟩ args').1 ∧
      (w.bindParams ⟨a, params, body, name, env⟩ args).2.Linked mode l'
        (u.bindParams ⟨b, params, body, name, env'⟩ args').2 base := by
  have within := l.within_addScope w.store.scopes.size u.store.scopes.size
  have entries := bindArgs_related .no params (values.mono within).forall₂
  obtain ⟨grown, after⟩ := linked.pushed (Scope.ofBindings_related entries Option.none)
  exact ⟨_, grown, envs.child w.store u.store, after⟩

theorem fresh (linked : w.Linked mode l u base) :
    World.Linked mode (l.addStamp w.stamps u.stamps) { w with stamps := w.stamps + 1 }
      { u with stamps := u.stamps + 1 } base :=
  have within := l.within_addStamp w.stamps u.stamps
  { linked with
    store := linked.store.mono within linked.store.fair fun pair => pair
    confined := ⟨linked.confined.size_le, linked.confined.elsewhere⟩
    stamps := linked.stamps.add
    given := Nat.le_succ_of_le linked.given
    gear := linked.gear.mono within }

theorem makeClosure (linked : w.Linked mode l u base) (params : List String) (body : Expr) (name : Option String)
    (envs : env.Linked l env') :
    ∃ l', l.Extends base l' ∧
      (w.makeClosure params body name env).1.Linked l' (u.makeClosure params body name env').1 ∧
      (w.makeClosure params body name env).2.Linked mode l' (u.makeClosure params body name env').2 base := by
  have stamped : l.Extends base (l.addStamp w.stamps u.stamps) := .addStamp base l _ _
  have stamp : (l.addStamp w.stamps u.stamps).stamps w.stamps u.stamps := .inr ⟨rfl, rfl⟩
  have later := linked.fresh
  by_cases anonymous : (name.getD "").isEmpty
  · simp only [World.makeClosure, World.fresh, if_pos anonymous]
    exact ⟨_, stamped, .closure stamp (envs.mono stamped.toWithin), later⟩
  · have inner := (envs.mono stamped.toWithin).child w.store u.store
    have value : Value.Linked ((l.addStamp w.stamps u.stamps).addScope w.store.scopes.size u.store.scopes.size)
        (.closure ⟨w.stamps, params, body, name, w.store.child env⟩)
        (.closure ⟨u.stamps, params, body, name, u.store.child env'⟩) := .closure stamp inner
    obtain ⟨grown, after⟩ :=
      later.pushed (Scope.ofBindings_related (entry_related (name.getD "") value) Option.none)
    simp only [World.makeClosure, World.fresh, if_neg anonymous]
    exact ⟨_, stamped.trans grown, value, after⟩

theorem root (linked : w.Linked mode l u base) (made : Mode) :
    ∃ l', l.Extends base l' ∧ (w.root made none).1.Linked l' (u.root made none).1 ∧
      (w.root made none).2.Linked mode l' (u.root made none).2 base := by
  have entries : List.Forall₂ (EntryRelated (Value.Linked (l.addScope w.store.scopes.size u.store.scopes.size)))
      ((Builtin.library made).map fun b => (b.name, .builtin b))
      ((Builtin.library made).map fun b => (b.name, .builtin b)) := by
    refine List.forall₂_same.mpr fun entry listed => ⟨rfl, ?_⟩
    obtain ⟨b, _, rfl⟩ := List.mem_map.mp listed
    exact .atom rfl
  obtain ⟨grown, after⟩ := linked.pushed (Scope.ofBindings_related entries none)
  exact ⟨_, grown, .cons (.inr ⟨rfl, rfl⟩) .nil, after⟩

end World.Linked

end Worlds

end Trampoline

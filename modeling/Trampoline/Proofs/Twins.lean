import Trampoline.Proofs.Quiet
import Trampoline.Proofs.Related

/-!
Worlds that two runs leave, one of a `let` and one of functions applied in its place. The second run makes a function
for each binding, so the stamps of all that it makes later are others; and where the first run is about to bind a name,
the second is about to apply a function. Nothing that a program can find out tells two such worlds apart.
-/

set_option autoImplicit false

namespace Trampoline

def Expr.applied (body : Expr) : List Binding → Expr
  | [] => body
  | .mk name init :: bs => .call (.lambda [name] (applied body bs) none) (if init.isHole then [] else [init])

abbrev Pairing := Nat → Nat → Prop

namespace Pairing

def ExtendedBy (pairs pairs' : Pairing) : Prop := ∀ a b, pairs a b → pairs' a b

structure Fair (pairs : Pairing) (given given' : Nat) : Prop where
  below : ∀ {a b}, pairs a b → a < given ∧ b < given'
  left : ∀ {a b c}, pairs a b → pairs a c → b = c
  right : ∀ {a b c}, pairs a c → pairs b c → a = b

def add (pairs : Pairing) (given given' : Nat) : Pairing := fun a b => pairs a b ∨ a = given ∧ b = given'

theorem grows_add (pairs : Pairing) (given given' : Nat) : pairs.ExtendedBy (pairs.add given given') :=
  fun _ _ => .inl

theorem ExtendedBy.trans {pairs pairs' pairs'' : Pairing} (first : pairs.ExtendedBy pairs')
    (second : pairs'.ExtendedBy pairs'') : pairs.ExtendedBy pairs'' :=
  fun a b pair => second a b (first a b pair)

theorem Fair.add {pairs : Pairing} {given given' : Nat} (fair : pairs.Fair given given') :
    (pairs.add given given').Fair (given + 1) (given' + 1) := by
  refine ⟨?_, ?_, ?_⟩
  · rintro a b (old | ⟨rfl, rfl⟩)
    · exact ⟨Nat.lt_succ_of_lt (fair.below old).1, Nat.lt_succ_of_lt (fair.below old).2⟩
    · exact ⟨Nat.lt_succ_self _, Nat.lt_succ_self _⟩
  · rintro a b c (old | ⟨rfl, rfl⟩) (old' | ⟨new, rfl⟩)
    · exact fair.left old old'
    · exact absurd (fair.below old).1 (new ▸ Nat.lt_irrefl _)
    · exact absurd (fair.below old').1 (Nat.lt_irrefl _)
    · rfl
  · rintro a b c (old | ⟨rfl, rfl⟩) (old' | ⟨rfl, new⟩)
    · exact fair.right old old'
    · exact absurd (fair.below old).2 (new ▸ Nat.lt_irrefl _)
    · exact absurd (fair.below old').2 (Nat.lt_irrefl _)
    · rfl

theorem Fair.beq {pairs : Pairing} {given given' : Nat} (fair : pairs.Fair given given') {a b c d : Nat}
    (pair : pairs a b) (pair' : pairs c d) : (b == d) = (a == c) := by
  rw [Bool.eq_iff_iff, beq_iff_eq, beq_iff_eq]
  exact ⟨fun same => fair.right pair (same ▸ pair'), fun same => fair.left pair (same ▸ pair')⟩

theorem Fair.skip {pairs : Pairing} {given given' : Nat} (fair : pairs.Fair given given') :
    pairs.Fair given (given' + 1) :=
  ⟨fun pair => ⟨(fair.below pair).1, Nat.lt_succ_of_lt (fair.below pair).2⟩, fair.left, fair.right⟩

def same (given : Nat) : Pairing := fun a b => a = b ∧ a < given

theorem fair_same (given : Nat) : (same given).Fair given given :=
  ⟨fun ⟨same, below⟩ => ⟨below, same ▸ below⟩, fun ⟨first, _⟩ ⟨second, _⟩ => first.symm.trans second,
    fun ⟨first, _⟩ ⟨second, _⟩ => first.trans second.symm⟩

end Pairing

def Value.isAtom : Value → Bool
  | .closure _ => false
  | .continuation .. => false
  | _ => true

def Frame.isBare : Frame → Bool
  | .right .. => false
  | .argument .. => false
  | _ => true

mutual

inductive Value.Twin (m : MachineId) (pairs : Pairing) : Value → Value → Prop where
  | atom {v : Value} : v.isAtom = true → Value.Twin m pairs v v
  | closure {a b : Nat} {params : List String} {body : Expr} {name : Option String} {env : Env} :
      pairs a b → Value.Twin m pairs (.closure ⟨a, params, body, name, env⟩) (.closure ⟨b, params, body, name, env⟩)
  | continuation {a b : Nat} {k l : Kont} :
      pairs a b → FramesTwin m pairs k l → Value.Twin m pairs (.continuation a k) (.continuation b l)

inductive Frame.Twin (m : MachineId) (pairs : Pairing) : Frame → Frame → Prop where
  | bare {frame : Frame} : frame.isBare = true → Frame.Twin m pairs frame frame
  | right {owner : MachineId} {op : String} {v u : Value} :
      Value.Twin m pairs v u → Frame.Twin m pairs (.right owner op v) (.right owner op u)
  | argument {owner : MachineId} {f g : Value} {vs us : List Value} {rest : List Expr} {env : Env} :
      Value.Twin m pairs f g → ValuesTwin m pairs vs us →
      Frame.Twin m pairs (.argument owner f vs rest env) (.argument owner g us rest env)
  | init {name : String} {rest : List Binding} {body : Expr} {env : Env} {stamp : Nat} :
      Frame.Twin m pairs (.init m name rest body env)
        (.argument m (.closure ⟨stamp, [name], body.applied rest, none, env⟩) [] [] env)

inductive FramesTwin (m : MachineId) (pairs : Pairing) : Kont → Kont → Prop where
  | nil : FramesTwin m pairs [] []
  | cons {f g : Frame} {k l : Kont} : Frame.Twin m pairs f g → FramesTwin m pairs k l →
      FramesTwin m pairs (f :: k) (g :: l)

inductive ValuesTwin (m : MachineId) (pairs : Pairing) : List Value → List Value → Prop where
  | nil : ValuesTwin m pairs [] []
  | cons {v u : Value} {vs us : List Value} : Value.Twin m pairs v u → ValuesTwin m pairs vs us →
      ValuesTwin m pairs (v :: vs) (u :: us)

end

section ExtendedBy

variable {m : MachineId} {pairs pairs' : Pairing}

mutual

theorem Value.Twin.mono (grows : pairs.ExtendedBy pairs') {v u : Value} (twin : v.Twin m pairs u) :
    v.Twin m pairs' u := by
  cases twin with
  | atom plain => exact .atom plain
  | closure pair => exact .closure (grows _ _ pair)
  | continuation pair frames => exact .continuation (grows _ _ pair) (frames.mono grows)

theorem Frame.Twin.mono (grows : pairs.ExtendedBy pairs') {f g : Frame} (twin : f.Twin m pairs g) :
    f.Twin m pairs' g := by
  cases twin with
  | bare plain => exact .bare plain
  | right value => exact .right (value.mono grows)
  | argument func values => exact .argument (func.mono grows) (values.mono grows)
  | init => exact .init

theorem FramesTwin.mono (grows : pairs.ExtendedBy pairs') {k l : Kont} (twins : FramesTwin m pairs k l) :
    FramesTwin m pairs' k l := by
  cases twins with
  | nil => exact .nil
  | cons frame rest => exact .cons (frame.mono grows) (rest.mono grows)

theorem ValuesTwin.mono (grows : pairs.ExtendedBy pairs') {vs us : List Value} (twins : ValuesTwin m pairs vs us) :
    ValuesTwin m pairs' vs us := by
  cases twins with
  | nil => exact .nil
  | cons value rest => exact .cons (value.mono grows) (rest.mono grows)

end

end ExtendedBy

section Twins

variable {m : MachineId} {pairs : Pairing}

namespace Value.Twin

variable {v u v' u' : Value}

theorem no : Value.no.Twin m pairs .no := .atom rfl

theorem shown_eq (twin : v.Twin m pairs u) : u.shown = v.shown := by
  cases twin <;> rfl

theorem text_eq (twin : v.Twin m pairs u) : u.text = v.text := by
  cases twin <;> rfl

theorem truthy_eq (twin : v.Twin m pairs u) : u.truthy = v.truthy := by
  cases twin <;> rfl

theorem same_eq {given given' : Nat} (fair : pairs.Fair given given') (twin : v.Twin m pairs u)
    (twin' : v'.Twin m pairs u') : u.same u' = v.same v' := by
  cases twin with
  | atom plain =>
      cases twin' with
      | atom => rfl
      | _ => cases v <;> first | rfl | cases plain
  | closure pair =>
      cases twin' with
      | atom plain => cases v' <;> first | rfl | cases plain
      | closure pair' => exact fair.beq pair pair'
      | continuation => rfl
  | continuation pair =>
      cases twin' with
      | atom plain => cases v' <;> first | rfl | cases plain
      | closure => rfl
      | continuation pair' => exact fair.beq pair pair'

end Value.Twin

namespace ValuesTwin

variable {vs us vs' us' : List Value}

theorem append (front : ValuesTwin m pairs vs us) (back : ValuesTwin m pairs vs' us') :
    ValuesTwin m pairs (vs ++ vs') (us ++ us') := by
  induction vs generalizing us with
  | nil => cases front; exact back
  | cons v vs ih =>
      cases front with
      | cons value rest => exact .cons value (ih rest)

theorem forall₂ (twins : ValuesTwin m pairs vs us) : List.Forall₂ (Value.Twin m pairs) vs us := by
  induction vs generalizing us with
  | nil => cases twins; exact .nil
  | cons v vs ih =>
      cases twins with
      | cons value rest => exact .cons value (ih rest)

theorem firstArg (twins : ValuesTwin m pairs vs us) : (firstArg vs).Twin m pairs (firstArg us) :=
  firstArg_related .no twins.forall₂

theorem printText_eq (twins : ValuesTwin m pairs vs us) : printText us = printText vs :=
  printText_related Value.Twin.text_eq twins.forall₂

end ValuesTwin

abbrev Failure.Twin (m : MachineId) (pairs : Pairing) : Failure → Failure → Prop :=
  Failure.Related (Value.Twin m pairs)

abbrev ResultTwin (m : MachineId) (pairs : Pairing) {α : Type} (related : α → α → Prop) :
    Except Failure α → Except Failure α → Prop :=
  ResultRelated (Failure.Twin m pairs) related

namespace Value.Twin

variable {v u v' u' : Value}

theorem toNumber (twin : v.Twin m pairs u) : ResultTwin m pairs Eq v.toNumber u.toNumber := by
  cases twin with
  | @atom v plain => cases v <;> first | exact .ok rfl | exact .error (.notNumber (.atom plain))
  | closure pair => exact .error (.notNumber (.closure pair))
  | continuation pair frames => exact .error (.notNumber (.continuation pair frames))

theorem indistinct {given given' : Nat} (fair : pairs.Fair given given') :
    Value.Indistinct (Value.Twin m pairs) where
  number _ := .atom rfl
  truth _ := .atom rfl
  truthy := truthy_eq
  same := same_eq fair
  toNumber := toNumber

theorem operator {given given' : Nat} (fair : pairs.Fair given given') (twin : v.Twin m pairs u)
    (twin' : v'.Twin m pairs u') (symbol : String) :
    ResultTwin m pairs (Value.Twin m pairs) (applyOperator symbol v v') (applyOperator symbol u u') :=
  (indistinct fair).applyOperator twin twin' symbol

end Value.Twin

abbrev EntryTwin (m : MachineId) (pairs : Pairing) : String × Value → String × Value → Prop :=
  EntryRelated (Value.Twin m pairs)

abbrev Scope.Twin (m : MachineId) (pairs : Pairing) : Scope → Scope → Prop := Scope.Related (Value.Twin m pairs)

structure Store.Twin (m : MachineId) (pairs : Pairing) (s s' : Store) : Prop where
  size : s'.scopes.size = s.scopes.size
  scopes : ∀ i : ScopeId, Option.Rel (Scope.Twin m pairs) s.scopes[i]? s'.scopes[i]?

namespace Store.Twin

variable {s s' : Store}

theorem valueIn? (twin : s.Twin m pairs s') (name : String) (i : ScopeId) :
    Option.Rel (Value.Twin m pairs) (s.valueIn? name i) (s'.valueIn? name i) :=
  rel_bind (twin.scopes i) fun _ _ scope => scope.get? name

theorem get? (twin : s.Twin m pairs s') (env : Env) (name : String) :
    Option.Rel (Value.Twin m pairs) (s.get? env name) (s'.get? env name) := by
  unfold Store.get?
  induction env.chain with
  | nil => exact .none
  | cons i chain ih =>
      have here := twin.valueIn? name i
      rw [List.findSome?_cons, List.findSome?_cons]
      generalize s.valueIn? name i = v at here
      generalize s'.valueIn? name i = u at here
      cases here with
      | none => exact ih
      | some value => exact .some value

theorem target?_eq (twin : s.Twin m pairs s') (env : Env) (name : String) :
    s'.target? env name = s.target? env name := by
  have found : s'.lookup? env name = s.lookup? env name := by
    simp only [Store.lookup?, isSome_of_rel (twin.valueIn? name _)]
  rw [Store.target?, Store.target?, found]

theorem output_eq (twin : s.Twin m pairs s') (env : Env) : s'.output env = s.output env := by
  have outs (i : ScopeId) : (s'.scopes[i]?).bind Scope.out = (s.scopes[i]?).bind Scope.out := by
    have here := twin.scopes i
    generalize s.scopes[i]? = scope at here
    generalize s'.scopes[i]? = scope' at here
    cases here with
    | none => rfl
    | some scope => exact scope.out
  simp only [Store.output, outs]

theorem child_eq (twin : s.Twin m pairs s') (env : Env) : s'.child env = s.child env := by
  rw [Store.child, Store.child, twin.size]

theorem setIn (twin : s.Twin m pairs s') (i : ScopeId) (name : String) {v u : Value} (value : v.Twin m pairs u) :
    (s.setIn i name v).Twin m pairs (s'.setIn i name u) := by
  refine ⟨by simp [Store.setIn, twin.size], fun j => ?_⟩
  simp only [Store.setIn, Array.getElem?_modify]
  split
  · exact rel_map (twin.scopes j) fun _ _ scope => scope.set name value
  · exact twin.scopes j

theorem push (twin : s.Twin m pairs s') {scope scope' : Scope} (new : scope.Twin m pairs scope') :
    Store.Twin m pairs ⟨s.scopes.push scope⟩ ⟨s'.scopes.push scope'⟩ := by
  refine ⟨by simp [twin.size], fun j => ?_⟩
  simp only [Array.getElem?_push, twin.size]
  split
  · exact .some new
  · exact twin.scopes j

theorem extend (twin : s.Twin m pairs s') (env : Env) {vars vars' : List (String × Value)}
    (twins : List.Forall₂ (EntryTwin m pairs) vars vars') :
    (s'.extend env vars').1 = (s.extend env vars).1 ∧ (s.extend env vars).2.Twin m pairs (s'.extend env vars').2 :=
  ⟨twin.child_eq env, twin.push (Scope.ofBindings_related twins none)⟩

theorem mono {pairs' : Pairing} (twin : s.Twin m pairs s') (grows : pairs.ExtendedBy pairs') : s.Twin m pairs' s' := by
  refine ⟨twin.size, fun i => ?_⟩
  have here := twin.scopes i
  generalize s.scopes[i]? = scope at here
  generalize s'.scopes[i]? = scope' at here
  cases here with
  | none => exact .none
  | some scope => exact .some (scope.mono fun _ _ value => value.mono grows)

end Store.Twin

structure Timer.Twin (m : MachineId) (pairs : Pairing) (t t' : Timer) : Prop where
  machine : t'.machine = t.machine
  due : t'.due = t.due
  kont : FramesTwin m pairs t.kont t'.kont
  value : t.value.Twin m pairs t'.value

inductive Event.Twin (m : MachineId) (pairs : Pairing) : Event → Event → Prop where
  | line (stream : Stream) (text : String) : Event.Twin m pairs (.line stream text) (.line stream text)
  | armed (milliseconds : Float) (pending : Int) :
      Event.Twin m pairs (.armed milliseconds pending) (.armed milliseconds pending)
  | idle : Event.Twin m pairs .idle .idle
  | result {v u : Value} : v.Twin m pairs u → Event.Twin m pairs (.result v) (.result u)
  | failed {cause cause' : Failure} : cause.Twin m pairs cause' → Event.Twin m pairs (.failed cause) (.failed cause')
  | raised {cause cause' : Failure} : cause.Twin m pairs cause' → Event.Twin m pairs (.raised cause) (.raised cause')

theorem Failure.Twin.mono {pairs' : Pairing} (grows : pairs.ExtendedBy pairs') {cause cause' : Failure}
    (twin : cause.Twin m pairs cause') : cause.Twin m pairs' cause' := by
  cases twin with
  | notNumber value => exact .notNumber (value.mono grows)
  | notFunction value => exact .notFunction (value.mono grows)
  | same plain => exact .same plain

theorem Event.Twin.mono {pairs' : Pairing} (grows : pairs.ExtendedBy pairs') {event event' : Event}
    (twin : event.Twin m pairs event') : event.Twin m pairs' event' := by
  cases twin with
  | line stream text => exact .line stream text
  | armed milliseconds pending => exact .armed milliseconds pending
  | idle => exact .idle
  | result value => exact .result (value.mono grows)
  | failed cause => exact .failed (cause.mono grows)
  | raised cause => exact .raised (cause.mono grows)

end Twins

-- How far a machine has come in its budget depends on all that it does, so it is put aside.
def Machine.aside (machine : Machine) : Machine := { machine with remaining := 0, bounces := 0 }

def World.aside (m : MachineId) (w : World) : World :=
  { w with machines := w.machines.modify m Machine.aside, trace := w.events, checks := none }

structure World.Twin (m : MachineId) (pairs : Pairing) (w u : World) : Prop where
  stamps : pairs.Fair w.stamps u.stamps
  store : w.store.Twin m pairs u.store
  clock : u.clock = w.clock
  readings : u.readings = w.readings
  machines : (u.aside m).machines = (w.aside m).machines
  timers : List.Forall₂ (Timer.Twin m pairs) w.timers u.timers
  now : u.now = w.now
  events : List.Forall₂ (Event.Twin m pairs) w.events.toList u.events.toList

section Worlds

variable {m : MachineId} {pairs : Pairing} {w u : World}

namespace World

theorem aside_updateMachine (m : MachineId) (w : World) (f : Machine → Machine)
    (unseen : ∀ machine, (f machine).aside = machine.aside) : (w.updateMachine m f).aside m = w.aside m := by
  simp only [aside, updateMachine, events]
  congr 1
  apply Array.ext
  · simp
  · intro i bound bound'
    by_cases here : m = i <;> simp [Array.getElem_modify, here, unseen]

theorem aside_spend (m : MachineId) (w : World) : (w.spend m).aside m = w.aside m :=
  aside_updateMachine m w _ fun _ => rfl

theorem aside_refill (m : MachineId) (w : World) : (w.refill m).aside m = w.aside m :=
  aside_updateMachine m w _ fun _ => rfl

theorem aside_note_hidden (m : MachineId) (w : World) (event : Event) (hidden : event.isVisible = false) :
    (w.note event).aside m = w.aside m := by
  simp [aside, events, note, hidden]

theorem aside_countLegs (m : MachineId) (w : World) (legs : Nat) : (w.countLegs m legs).aside m = w.aside m := by
  unfold countLegs
  split
  · rw [aside_note_hidden m _ _ rfl]
    exact aside_updateMachine m w _ fun _ => rfl
  · exact aside_updateMachine m w _ fun _ => rfl

end World

namespace World.Twin

theorem congr {w' u' : World} (twin : w.Twin m pairs u) (left : w'.aside m = w.aside m)
    (right : u'.aside m = u.aside m) : w'.Twin m pairs u' := by
  have machines : (u'.aside m).machines = (w'.aside m).machines := by rw [left, right, twin.machines]
  simp only [World.aside, World.mk.injEq] at left right
  obtain ⟨store, stamps, clock, readings, _, timers, now, events, _⟩ := left
  obtain ⟨store', stamps', clock', readings', _, timers', now', events', _⟩ := right
  refine ⟨?_, ?_, ?_, ?_, machines, ?_, ?_, ?_⟩
  · rw [stamps, stamps']
    exact twin.stamps
  · rw [store, store']
    exact twin.store
  · rw [clock, clock', twin.clock]
  · rw [readings, readings', twin.readings]
  · rw [timers, timers']
    exact twin.timers
  · rw [now, now', twin.now]
  · rw [events, events']
    exact twin.events

theorem stored {s s' : Store} (twin : w.Twin m pairs u) (store : s.Twin m pairs s') :
    World.Twin m pairs { w with store := s } { u with store := s' } :=
  ⟨twin.stamps, store, twin.clock, twin.readings, twin.machines, twin.timers, twin.now, twin.events⟩

theorem noted {event event' : Event} (twin : w.Twin m pairs u) (visible : event.isVisible = true)
    (visible' : event'.isVisible = true) (same : event.Twin m pairs event') :
    (w.note event).Twin m pairs (u.note event') := by
  refine ⟨twin.stamps, twin.store, twin.clock, twin.readings, twin.machines, twin.timers, twin.now, ?_⟩
  simp only [World.events, World.note, Array.filter_push, visible, visible', if_true, Array.toList_push]
  exact List.rel_append twin.events (.cons same .nil)

theorem writeLine (twin : w.Twin m pairs u) (env : Env) (text : String) :
    (w.writeLine env text).Twin m pairs (u.writeLine env text) := by
  rw [World.writeLine, World.writeLine, twin.store.output_eq]
  exact twin.noted rfl rfl (.line _ _)

theorem readClock (twin : w.Twin m pairs u) :
    u.readClock.1 = w.readClock.1 ∧ w.readClock.2.Twin m pairs u.readClock.2 := by
  refine ⟨?_, twin.stamps, twin.store, twin.clock, ?_, twin.machines, twin.timers, twin.now, twin.events⟩
  · simp only [World.readClock, twin.clock, twin.readings]
  · simp only [World.readClock, twin.readings]

theorem reportElapsed (twin : w.Twin m pairs u) (env : Env) (start : Nat) :
    (w.reportElapsed env start).Twin m pairs (u.reportElapsed env start) := by
  obtain ⟨stop, read⟩ := twin.readClock
  have wrote := read.writeLine env (World.elapsedText (w.readClock.1 - start))
  simp only [World.reportElapsed, stop]
  exact wrote

theorem setVar (twin : w.Twin m pairs u) (i : ScopeId) (name : String) {v v' : Value} (value : v.Twin m pairs v') :
    (w.setVar i name v).Twin m pairs (u.setVar i name v') :=
  twin.stored (twin.store.setIn i name value)

theorem bind (twin : w.Twin m pairs u) (env : Env) (name : String) {v v' : Value} (value : v.Twin m pairs v') :
    (u.bind env name v').1 = (w.bind env name v).1 ∧ (w.bind env name v).2.Twin m pairs (u.bind env name v').2 := by
  obtain ⟨inner, store⟩ := twin.store.extend env (entry_related name value)
  exact ⟨inner, twin.stored store⟩

theorem bindParams (twin : w.Twin m pairs u) {c c' : Closure} (params : c'.params = c.params) (env : c'.env = c.env)
    {args args' : List Value} (twins : ValuesTwin m pairs args args') :
    (u.bindParams c' args').1 = (w.bindParams c args).1 ∧
      (w.bindParams c args).2.Twin m pairs (u.bindParams c' args').2 := by
  obtain ⟨inner, store⟩ := twin.store.extend c.env (bindArgs_related .no c.params twins.forall₂)
  simp only [World.bindParams, params, env]
  exact ⟨inner, twin.stored store⟩

theorem fresh (twin : w.Twin m pairs u) :
    World.Twin m (pairs.add w.stamps u.stamps) { w with stamps := w.stamps + 1 } { u with stamps := u.stamps + 1 } := by
  have grows := pairs.grows_add w.stamps u.stamps
  refine ⟨twin.stamps.add, twin.store.mono grows, twin.clock, twin.readings, twin.machines,
    twin.timers.imp fun _ _ t => ⟨t.machine, t.due, t.kont.mono grows, t.value.mono grows⟩, twin.now,
    twin.events.imp fun _ _ event => event.mono grows⟩

theorem skip (twin : w.Twin m pairs u) : w.Twin m pairs { u with stamps := u.stamps + 1 } :=
  ⟨twin.stamps.skip, twin.store, twin.clock, twin.readings, twin.machines, twin.timers, twin.now, twin.events⟩

theorem makeClosure (twin : w.Twin m pairs u) (params : List String) (body : Expr) (name : Option String) (env : Env) :
    (w.makeClosure params body name env).1.Twin m (pairs.add w.stamps u.stamps) (u.makeClosure params body name env).1 ∧
      (w.makeClosure params body name env).2.Twin m (pairs.add w.stamps u.stamps)
        (u.makeClosure params body name env).2 := by
  have pair : pairs.add w.stamps u.stamps w.stamps u.stamps := .inr ⟨rfl, rfl⟩
  by_cases anonymous : (name.getD "").isEmpty
  · simp only [World.makeClosure, World.fresh, if_pos anonymous]
    exact ⟨.closure pair, twin.fresh⟩
  · have value : Value.Twin m (pairs.add w.stamps u.stamps)
        (.closure ⟨w.stamps, params, body, name, w.store.child env⟩)
        (.closure ⟨u.stamps, params, body, name, w.store.child env⟩) := .closure pair
    simp only [World.makeClosure, World.fresh, if_neg anonymous, twin.store.child_eq env]
    exact ⟨value, twin.fresh.stored (twin.fresh.store.extend env (entry_related _ value)).2⟩

end World.Twin

end Worlds

end Trampoline

import Trampoline.Direct
import Trampoline.Proofs.Stores

set_option autoImplicit false

namespace Trampoline

def Builtin.inCps (b : Builtin) : Builtin := { b with mode := .cps }

namespace Value

def inCps : Value → Value
  | .builtin b => .builtin b.inCps
  | v => v

def IsDirect : Value → Prop
  | .builtin b => b.mode = .sync
  | .continuation .. => False
  | _ => True

theorem shown_inCps (v : Value) : v.inCps.shown = v.shown := by cases v <;> rfl

theorem text_inCps (v : Value) : v.inCps.text = v.text := by cases v <;> rfl

theorem truthy_inCps (v : Value) : v.inCps.truthy = v.truthy := by cases v <;> rfl

theorem same_inCps (a b : Value) (directA : a.IsDirect) (directB : b.IsDirect) :
    a.inCps.same b.inCps = a.same b := by
  cases a with
  | builtin x =>
      cases b with
      | builtin y =>
          obtain ⟨name, mode, action, stamp⟩ := x
          obtain ⟨name', mode', action', stamp'⟩ := y
          cases directA
          cases directB
          simp only [inCps, Builtin.inCps, same]
          rw [Bool.eq_iff_iff, beq_iff_eq, beq_iff_eq]
          simp
      | _ => rfl
  | _ => cases b <;> rfl

end Value

namespace Failure

inductive Kind where
  | parse
  | undefinedVariable
  | invalidTarget
  | type
  | divideByZero
  | halted
  | unsupported
  | internal
  | value
  | eventLoop
  | directory
  | line
deriving DecidableEq, Repr

def kind : Failure → Kind
  | .parse _ => .parse
  | .undefinedVariable _ => .undefinedVariable
  | .invalidTarget _ => .invalidTarget
  | .notNumber _ => .type
  | .notFunction _ => .type
  | .divideByZero => .divideByZero
  | .halted => .halted
  | .cpsOnly _ => .unsupported
  | .wrongMode .. => .unsupported
  | .noEventLoop => .unsupported
  | .notEvaluable _ => .internal
  | .unknownOperator _ => .internal
  | .remainderDomain => .value
  | .unknownMode _ => .value
  | .unknownFrontEnd _ => .value
  | .budgetNotPositive => .value
  | .loopClosed => .eventLoop
  | .isDirectory _ => .directory
  | .noSuchLine => .line

def inCps : Failure → Failure
  | .notNumber got => .notNumber got.inCps
  | .notFunction got => .notFunction got.inCps
  | cause => cause

theorem kind_inCps (cause : Failure) : cause.inCps.kind = cause.kind := by cases cause <;> rfl

theorem message_inCps (cause : Failure) : cause.inCps.message = cause.message := by
  cases cause with
  | notNumber got => exact congrArg ("Expected number but got " ++ ·) got.shown_inCps
  | notFunction got => exact congrArg ("Expected function but got " ++ ·) got.shown_inCps
  | _ => rfl

end Failure

def resultInCps : Except Failure Value → Except Failure Value
  | .ok v => .ok v.inCps
  | .error cause => .error cause.inCps

theorem toNumber_inCps (v : Value) : v.inCps.toNumber = v.toNumber.mapError Failure.inCps := by
  cases v <;> rfl

theorem toDivisor_inCps (v : Value) : v.inCps.toDivisor = v.toDivisor.mapError Failure.inCps := by
  simp only [Value.toDivisor, toNumber_inCps]
  cases v.toNumber with
  | error cause => rfl
  | ok x =>
      change (if x == 0 then _ else _) = Except.mapError Failure.inCps (if x == 0 then _ else _)
      split <;> rfl

theorem bind_numbers_inCps {α β : Type} (x : Except Failure α) (y : Except Failure β)
    (f : α → β → Except Failure Value) (plain : ∀ a b, f a b = resultInCps (f a b)) :
    (do
      let a ← x.mapError Failure.inCps
      let b ← y.mapError Failure.inCps
      f a b) =
    resultInCps (do
      let a ← x
      let b ← y
      f a b) := by
  cases x with
  | error cause => rfl
  | ok a =>
      cases y with
      | error cause => rfl
      | ok b => exact plain a b

theorem operator_inCps (op : Operator) (a b : Value) (directA : a.IsDirect) (directB : b.IsDirect) :
    op.apply a.inCps b.inCps = resultInCps (op.apply a b) := by
  have arithmetic (f : Float → Float → Float) :
      Value.arithmetic f a.inCps b.inCps = resultInCps (Value.arithmetic f a b) := by
    simp only [Value.arithmetic, toNumber_inCps]
    exact bind_numbers_inCps _ _ (fun x y => .ok (.num (f x y))) fun _ _ => rfl
  have comparison (p : Float → Float → Bool) :
      Value.comparison p a.inCps b.inCps = resultInCps (Value.comparison p a b) := by
    simp only [Value.comparison, toNumber_inCps]
    exact bind_numbers_inCps _ _ (fun x y => .ok (.bool (p x y))) fun _ _ => rfl
  cases op with
  | add | sub | mul => exact arithmetic _
  | lt | gt | le | ge => exact comparison _
  | div =>
      simp only [Operator.apply, Value.quotient, toNumber_inCps, toDivisor_inCps]
      exact bind_numbers_inCps _ _ (fun x y => .ok (.num (x / y))) fun _ _ => rfl
  | rem =>
      simp only [Operator.apply, Value.remainder, toNumber_inCps, toDivisor_inCps]
      refine bind_numbers_inCps _ _ _ ?_
      intro x y
      split <;> rfl
  | and =>
      simp only [Operator.apply, Value.truthy_inCps]
      split <;> rfl
  | or =>
      simp only [Operator.apply, Value.truthy_inCps]
      split <;> rfl
  | eq | ne =>
      simp only [Operator.apply, Value.same_inCps a b directA directB]
      rfl

theorem applyOperator_inCps (symbol : String) (a b : Value) (directA : a.IsDirect)
    (directB : b.IsDirect) :
    applyOperator symbol a.inCps b.inCps = resultInCps (applyOperator symbol a b) := by
  unfold applyOperator
  split
  · exact operator_inCps _ a b directA directB
  · rfl

theorem printText_inCps (args : List Value) : printText (args.map Value.inCps) = printText args := by
  simp only [printText, List.map_map]
  congr 2
  funext v
  exact Value.text_inCps v

-- Closures keep their stamps and their scopes, so identity and capture are the same on both sides.
structure Corresponding (w w' : World) : Prop where
  direct : w.store.Holds Value.IsDirect
  store : w'.store = w.store.mapValues Value.inCps
  stamps : w'.stamps = w.stamps
  clock : w'.clock = w.clock
  readings : w'.readings = w.readings

theorem Corresponding.root {w w' : World} (corresponding : Corresponding w w') (out : Option Stream) :
    (w'.root .cps out).1 = (w.root .sync out).1 ∧
      Corresponding (w.root .sync out).2 (w'.root .cps out).2 := by
  obtain ⟨direct, store, stamps, clock, readings⟩ := corresponding
  have sizes : w'.store.scopes.size = w.store.scopes.size := by
    rw [store]
    exact Array.size_map
  refine ⟨congrArg (Env.mk · []) sizes, ?_, ?_, stamps, clock, readings⟩
  · have modes : ∀ b ∈ Builtin.library .sync, b.mode = .sync := by decide
    exact World.root_holds direct .sync out modes
  · have pushed := Store.push_mapValues Value.inCps w.store
      ((Builtin.library .sync).map fun b => (b.name, .builtin b)) out
    rw [← store] at pushed
    exact pushed

theorem Corresponding.rooted (machines machines' : Array Machine) :
    Corresponding (.rooted .sync machines) (.rooted .cps machines') := by
  have empty : Corresponding { machines := machines } { machines := machines' } :=
    ⟨Store.empty_holds, by simp [Store.mapValues], rfl, rfl, rfl⟩
  exact (empty.root none).2

def Event.ofLines (lines : List (Stream × String)) : Array Event :=
  (lines.map fun (stream, text) => Event.line stream text).toArray

theorem Event.ofLines_append (lines more : List (Stream × String)) :
    ofLines (lines ++ more) = ofLines lines ++ ofLines more := by
  simp [ofLines]

-- Corresponding worlds on the way from a pair of worlds: so far both have printed the same lines, and
-- no machine and no timer was touched.
structure Paired (s s' w w' : World) : Prop where
  corresponding : Corresponding w w'
  printed : ∃ lines, w.trace = s.trace ++ Event.ofLines lines ∧
    w'.trace = s'.trace ++ Event.ofLines lines
  machines : w'.machines = s'.machines
  timers : w'.timers = s'.timers

namespace Paired

variable {s s' w w' : World}

theorem start (corresponding : Corresponding w w') : Paired w w' w w' :=
  ⟨corresponding, ⟨[], by simp [Event.ofLines], by simp [Event.ofLines]⟩, rfl, rfl⟩

theorem withStore (pair : Paired s s' w w') (store : Store) (direct : store.Holds Value.IsDirect) :
    Paired s s' { w with store := store }
      { w' with store := store.mapValues Value.inCps } :=
  ⟨⟨direct, rfl, pair.corresponding.stamps, pair.corresponding.clock, pair.corresponding.readings⟩,
    pair.printed, pair.machines, pair.timers⟩

theorem setVar (pair : Paired s s' w w') (i : ScopeId) (name : String) (v : Value)
    (direct : v.IsDirect) : Paired s s' (w.setVar i name v) (w'.setVar i name v.inCps) := by
  have changed := pair.withStore (w.store.setIn i name v)
    (Store.holds_setIn pair.corresponding.direct i name v direct)
  rw [← Store.setIn_mapValues, ← pair.corresponding.store] at changed
  exact changed

theorem push (pair : Paired s s' w w') (bindings : List (String × Value))
    (direct : ∀ entry ∈ bindings, entry.2.IsDirect) :
    Paired s s' { w with store := ⟨w.store.scopes.push (.ofBindings bindings none)⟩ }
      { w' with store :=
          ⟨w'.store.scopes.push (.ofBindings (bindings.map (mapEntry Value.inCps)) none)⟩ } := by
  have changed := pair.withStore _ (Store.holds_push pair.corresponding.direct bindings none direct)
  rw [← Store.push_mapValues, ← pair.corresponding.store] at changed
  exact changed

theorem child (pair : Paired s s' w w') (env : Env) : w'.store.child env = w.store.child env := by
  rw [pair.corresponding.store, Store.child_mapValues]

theorem bind (pair : Paired s s' w w') (env : Env) (name : String) (v : Value)
    (direct : v.IsDirect) :
    (w'.bind env name v.inCps).1 = (w.bind env name v).1 ∧
      Paired s s' (w.bind env name v).2 (w'.bind env name v.inCps).2 :=
  ⟨pair.child env, pair.push [(name, v)] (List.forall_mem_singleton.mpr direct)⟩

theorem bindParams (pair : Paired s s' w w') (c : Closure) (args : List Value)
    (direct : ∀ v ∈ args, v.IsDirect) :
    (w'.bindParams c (args.map Value.inCps)).1 = (w.bindParams c args).1 ∧
      Paired s s' (w.bindParams c args).2 (w'.bindParams c (args.map Value.inCps)).2 := by
  have pushed := pair.push _ (bindArgs_holds (P := Value.IsDirect) trivial c.params args direct)
  rw [← bindArgs_map Value.inCps rfl] at pushed
  exact ⟨pair.child c.env, pushed⟩

theorem fresh (pair : Paired s s' w w') :
    Paired s s' { w with stamps := w.stamps + 1 } { w' with stamps := w'.stamps + 1 } :=
  ⟨⟨pair.corresponding.direct, pair.corresponding.store, by rw [pair.corresponding.stamps],
    pair.corresponding.clock, pair.corresponding.readings⟩, pair.printed, pair.machines, pair.timers⟩

theorem makeClosure (pair : Paired s s' w w') (params : List String) (body : Expr)
    (name : Option String) (env : Env) :
    ∃ c, (w.makeClosure params body name env).1 = .closure c ∧
      (w'.makeClosure params body name env).1 = .closure c ∧
      Paired s s' (w.makeClosure params body name env).2 (w'.makeClosure params body name env).2 := by
  have next := pair.fresh
  by_cases anonymous : (name.getD "").isEmpty
  · simp only [World.makeClosure, World.fresh, if_pos anonymous, pair.corresponding.stamps] at next ⊢
    exact ⟨_, rfl, rfl, next⟩
  · simp only [World.makeClosure, World.fresh, if_neg anonymous, pair.corresponding.stamps,
      pair.child env] at next ⊢
    exact ⟨_, rfl, rfl,
      next.push [(name.getD "", .closure _)] (List.forall_mem_singleton.mpr trivial)⟩

theorem writeLine (pair : Paired s s' w w') (env : Env) (text : String) :
    Paired s s' (w.writeLine env text) (w'.writeLine env text) := by
  obtain ⟨lines, printed, printed'⟩ := pair.printed
  have stream : w'.store.output env = w.store.output env := by
    rw [pair.corresponding.store, Store.output_mapValues]
  refine ⟨⟨pair.corresponding.direct, pair.corresponding.store, pair.corresponding.stamps,
    pair.corresponding.clock, pair.corresponding.readings⟩,
    ⟨lines ++ [(w.store.output env, text)], ?_, ?_⟩, pair.machines, pair.timers⟩
  · simp [World.writeLine, World.note, printed, Event.ofLines]
  · simp [World.writeLine, World.note, printed', stream, Event.ofLines]

theorem readClock (pair : Paired s s' w w') :
    w'.readClock.1 = w.readClock.1 ∧ Paired s s' w.readClock.2 w'.readClock.2 := by
  obtain ⟨direct, store, stamps, clock, readings⟩ := pair.corresponding
  refine ⟨?_, ⟨direct, store, stamps, clock, ?_⟩, pair.printed, pair.machines, pair.timers⟩
  · simp only [World.readClock, clock, readings]
  · simp only [World.readClock, readings]

theorem reportElapsed (pair : Paired s s' w w') (env : Env) (start : Nat) :
    Paired s s' (w.reportElapsed env start) (w'.reportElapsed env start) := by
  obtain ⟨sameTime, read⟩ := pair.readClock
  have reported := read.writeLine env (World.elapsedText (w.readClock.1 - start))
  simp only [World.reportElapsed, sameTime]
  exact reported

end Paired

end Trampoline

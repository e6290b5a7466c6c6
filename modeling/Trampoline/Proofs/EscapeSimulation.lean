import Trampoline.Proofs.Correspondence
import Trampoline.Proofs.Escapes
import Trampoline.Proofs.Executions

set_option autoImplicit false

namespace Trampoline

namespace Value

def inMachine (konts : Nat → Kont) : Value → Value
  | .continuation tag _ => .continuation tag (konts tag)
  | v => v.inCps

def Tagged (stamps : Nat) : Value → Prop
  | .builtin b => b.mode = .sync
  | .continuation tag _ => tag < stamps
  | _ => True

section

variable {konts konts' : Nat → Kont} {n n' : Nat}

theorem text_inMachine (konts : Nat → Kont) (v : Value) : (v.inMachine konts).text = v.text := by cases v <;> rfl

theorem truthy_inMachine (konts : Nat → Kont) (v : Value) : (v.inMachine konts).truthy = v.truthy := by cases v <;> rfl

theorem same_inMachine (a b : Value) (taggedA : a.Tagged n) (taggedB : b.Tagged n) :
    (a.inMachine konts).same (b.inMachine konts) = a.same b := by
  cases a with
  | builtin x =>
      cases b with
      | builtin y => exact same_inCps (.builtin x) (.builtin y) taggedA taggedB
      | _ => rfl
  | _ => cases b <;> rfl

theorem Tagged.mono {v : Value} (tagged : v.Tagged n) (more : n ≤ n') : v.Tagged n' := by
  cases v with
  | continuation tag frames => exact Nat.lt_of_lt_of_le tagged more
  | builtin b => exact tagged
  | _ => trivial

theorem inMachine_congr {v : Value} (tagged : v.Tagged n) (agree : ∀ tag < n, konts' tag = konts tag) :
    v.inMachine konts' = v.inMachine konts := by
  cases v with
  | continuation tag frames => exact congrArg (Value.continuation tag) (agree tag tagged)
  | _ => rfl

theorem eq_num_of_toNumber {v : Value} {x : Float} (number : v.toNumber = .ok x) : v = .num x := by
  cases v with
  | num y =>
      cases number
      rfl
  | _ => cases number

theorem eq_num_of_toDivisor {v : Value} {x : Float} (number : v.toDivisor = .ok x) : ∃ y, v = .num y := by
  obtain ⟨y, read, _⟩ := bind_eq_ok.mp number
  exact ⟨y, eq_num_of_toNumber read⟩

end

end Value

section Operators

variable {konts : Nat → Kont} {n : Nat}

theorem operands_inMachine {y : Except Failure Float} {f : Float → Float → Except Failure Value}
    {a b result : Value} (second : ∀ z, y = .ok z → ∃ x, b = .num x)
    (applied : (do
      let x ← a.toNumber
      let z ← y
      f x z) = .ok result) : a.inMachine konts = a ∧ b.inMachine konts = b := by
  obtain ⟨x, first, rest⟩ := bind_eq_ok.mp applied
  obtain ⟨z, read, _⟩ := bind_eq_ok.mp rest
  obtain ⟨u, rfl⟩ := second z read
  rw [Value.eq_num_of_toNumber first]
  exact ⟨rfl, rfl⟩

theorem operator_inMachine (op : Operator) (a b result : Value) (taggedA : a.Tagged n) (taggedB : b.Tagged n)
    (plain : (∃ x, result = .num x) ∨ (∃ t, result = .bool t) ∨ result = a ∨ result = b)
    (applied : op.apply a b = .ok result) :
    op.apply (a.inMachine konts) (b.inMachine konts) = .ok (result.inMachine konts) := by
  have number : ∀ z, b.toNumber = .ok z → ∃ x, b = .num x := fun z read => ⟨z, Value.eq_num_of_toNumber read⟩
  have divisor : ∀ z, b.toDivisor = .ok z → ∃ x, b = .num x := fun z read => Value.eq_num_of_toDivisor read
  have unchanged (same : a.inMachine konts = a ∧ b.inMachine konts = b) :
      op.apply (a.inMachine konts) (b.inMachine konts) = .ok (result.inMachine konts) := by
    obtain ⟨sameA, sameB⟩ := same
    rw [sameA, sameB, applied]
    rcases plain with ⟨x, rfl⟩ | ⟨t, rfl⟩ | rfl | rfl
    · rfl
    · rfl
    · rw [sameA]
    · rw [sameB]
  cases op with
  | add | sub | mul | lt | gt | le | ge => exact unchanged (operands_inMachine number applied)
  | div | rem => exact unchanged (operands_inMachine divisor applied)
  | eq | ne =>
      cases applied
      simp only [Operator.apply, Value.same_inMachine a b taggedA taggedB]
      rfl
  | and =>
      cases applied
      simp only [Operator.apply, Value.truthy_inMachine]
      split <;> rfl
  | or =>
      cases applied
      simp only [Operator.apply, Value.truthy_inMachine]
      split <;> rfl

theorem applyOperator_inMachine (symbol : String) (a b result : Value) (taggedA : a.Tagged n)
    (taggedB : b.Tagged n) (applied : applyOperator symbol a b = .ok result) :
    applyOperator symbol (a.inMachine konts) (b.inMachine konts) = .ok (result.inMachine konts) := by
  have plain := applyOperator_result symbol a b result applied
  unfold applyOperator at applied ⊢
  split at applied
  · exact operator_inMachine _ a b result taggedA taggedB plain applied
  · cases applied

theorem printText_inMachine (args : List Value) :
    printText (args.map (Value.inMachine konts)) = printText args := by
  simp only [printText, List.map_map]
  congr 2
  funext v
  exact v.text_inMachine konts

end Operators

structure Matched (konts : Nat → Kont) (w w' : World) : Prop where
  tagged : w.store.Every (Value.Tagged w.stamps)
  store : w'.store = w.store.mapValues (Value.inMachine konts)
  stamps : w'.stamps = w.stamps
  clock : w'.clock = w.clock
  readings : w'.readings = w.readings

theorem Matched.retag {konts konts' : Nat → Kont} {w w' : World} (matched : Matched konts w w')
    (agree : ∀ tag < w.stamps, konts' tag = konts tag) : Matched konts' w w' := by
  refine ⟨matched.tagged, ?_, matched.stamps, matched.clock, matched.readings⟩
  rw [matched.store]
  exact Store.mapValues_congr (matched.tagged.mono fun v tagged => (Value.inMachine_congr tagged agree).symm)

theorem Matched.of_corresponding {w w' : World} (konts : Nat → Kont) (corresponding : Corresponding w w')
    (direct : w.store.Every Value.IsDirect) : Matched konts w w' := by
  refine ⟨direct.mono ?_, ?_, corresponding.stamps, corresponding.clock, corresponding.readings⟩
  · intro v plain
    cases v with
    | builtin b => exact plain
    | continuation tag frames => exact plain.elim
    | _ => trivial
  · rw [corresponding.store]
    refine Store.mapValues_congr (direct.mono ?_)
    intro v plain
    cases v with
    | continuation tag frames => exact plain.elim
    | _ => rfl

theorem Matched.rooted (konts : Nat → Kont) (machines machines' : Array Machine) :
    Matched konts (.rooted .sync machines) (.rooted .cps machines') := by
  refine .of_corresponding konts (.rooted machines machines') (Store.every_push (by simp [Store.Every]) _ none ?_)
  intro entry member
  obtain ⟨b, listed, rfl⟩ := List.mem_map.mp member
  have modes : ∀ b ∈ Builtin.library .sync, b.mode = .sync := by decide
  exact modes b listed

def Event.line? : Event → Option (Stream × String)
  | .line stream text => some (stream, text)
  | _ => none

def World.lines (w : World) : List (Stream × String) := w.trace.toList.filterMap Event.line?

theorem World.lines_note (w : World) (event : Event) : (w.note event).lines = w.lines ++ event.line?.toList := by
  unfold lines note
  rw [Array.toList_push, List.filterMap_append]
  cases told : event.line? <;> simp [List.filterMap, told]

-- Matched worlds on the way from a pair of worlds: so far both have printed the same lines. The machine may have
-- slept, but nothing of it is left.
structure Along (s s' : World) (konts : Nat → Kont) (w w' : World) : Prop where
  matched : Matched konts w w'
  printed : ∃ lines, w.trace = s.trace ++ Event.ofLines lines ∧ w'.lines = s'.lines ++ lines
  machines : w'.quiet.machines = s'.quiet.machines
  timers : w'.timers = s'.timers
  outcomes : w'.outcomes = s'.outcomes

namespace Along

variable {s s' w w' : World} {konts konts' : Nat → Kont}

theorem start (matched : Matched konts w w') : Along w w' konts w w' :=
  ⟨matched, ⟨[], by simp [Event.ofLines], by simp⟩, rfl, rfl, rfl⟩

theorem retag (along : Along s s' konts w w') (agree : ∀ tag < w.stamps, konts' tag = konts tag) :
    Along s s' konts' w w' :=
  ⟨along.matched.retag agree, along.printed, along.machines, along.timers, along.outcomes⟩

theorem withStore (along : Along s s' konts w w') (store : Store)
    (tagged : store.Every (Value.Tagged w.stamps)) :
    Along s s' konts { w with store := store }
      { w' with store := store.mapValues (Value.inMachine konts) } :=
  ⟨⟨tagged, rfl, along.matched.stamps, along.matched.clock, along.matched.readings⟩, along.printed,
    along.machines, along.timers, along.outcomes⟩

theorem setVar (along : Along s s' konts w w') (i : ScopeId) (name : String) (v : Value)
    (tagged : v.Tagged w.stamps) :
    Along s s' konts (w.setVar i name v) (w'.setVar i name (v.inMachine konts)) := by
  have changed := along.withStore (w.store.setIn i name v)
    (Store.every_setIn along.matched.tagged i name v tagged)
  rw [← Store.setIn_mapValues, ← along.matched.store] at changed
  exact changed

theorem push (along : Along s s' konts w w') (bindings : List (String × Value))
    (tagged : ∀ entry ∈ bindings, entry.2.Tagged w.stamps) :
    Along s s' konts { w with store := ⟨w.store.scopes.push (.ofBindings bindings none)⟩ }
      { w' with store :=
          ⟨w'.store.scopes.push (.ofBindings (bindings.map (mapEntry (Value.inMachine konts))) none)⟩ } := by
  have changed := along.withStore _ (Store.every_push along.matched.tagged bindings none tagged)
  rw [← Store.push_mapValues, ← along.matched.store] at changed
  exact changed

theorem child (along : Along s s' konts w w') (env : Env) : w'.store.child env = w.store.child env := by
  rw [along.matched.store, Store.child_mapValues]

theorem bind (along : Along s s' konts w w') (env : Env) (name : String) (v : Value)
    (tagged : v.Tagged w.stamps) :
    (w'.bind env name (v.inMachine konts)).1 = (w.bind env name v).1 ∧
      Along s s' konts (w.bind env name v).2 (w'.bind env name (v.inMachine konts)).2 :=
  ⟨along.child env, along.push [(name, v)] (List.forall_mem_singleton.mpr tagged)⟩

theorem bindParams (along : Along s s' konts w w') (c : Closure) (args : List Value)
    (tagged : ∀ v ∈ args, v.Tagged w.stamps) :
    (w'.bindParams c (args.map (Value.inMachine konts))).1 = (w.bindParams c args).1 ∧
      Along s s' konts (w.bindParams c args).2 (w'.bindParams c (args.map (Value.inMachine konts))).2 := by
  have pushed := along.push _ (bindArgs_holds (P := Value.Tagged w.stamps) trivial c.params args tagged)
  rw [← bindArgs_map (Value.inMachine konts) rfl] at pushed
  exact ⟨along.child c.env, pushed⟩

theorem fresh (along : Along s s' konts w w') :
    Along s s' konts { w with stamps := w.stamps + 1 } { w' with stamps := w'.stamps + 1 } := by
  refine ⟨⟨?_, along.matched.store, by rw [along.matched.stamps], along.matched.clock,
    along.matched.readings⟩, along.printed, along.machines, along.timers, along.outcomes⟩
  exact along.matched.tagged.mono fun v tagged => tagged.mono (Nat.le_succ _)

theorem makeClosure (along : Along s s' konts w w') (params : List String) (body : Expr)
    (name : Option String) (env : Env) :
    ∃ c, (w.makeClosure params body name env).1 = .closure c ∧
      (w'.makeClosure params body name env).1 = .closure c ∧
      w.stamps ≤ (w.makeClosure params body name env).2.stamps ∧
      Along s s' konts (w.makeClosure params body name env).2 (w'.makeClosure params body name env).2 := by
  have next := along.fresh
  by_cases anonymous : (name.getD "").isEmpty
  · simp only [World.makeClosure, World.fresh, if_pos anonymous, along.matched.stamps] at next ⊢
    exact ⟨_, rfl, rfl, Nat.le_succ _, next⟩
  · simp only [World.makeClosure, World.fresh, if_neg anonymous, along.matched.stamps,
      along.child env] at next ⊢
    exact ⟨_, rfl, rfl, Nat.le_succ _,
      next.push [(name.getD "", .closure _)] (List.forall_mem_singleton.mpr trivial)⟩

theorem writeLine (along : Along s s' konts w w') (env : Env) (text : String) :
    Along s s' konts (w.writeLine env text) (w'.writeLine env text) := by
  obtain ⟨lines, printed, printed'⟩ := along.printed
  have stream : w'.store.output env = w.store.output env := by
    rw [along.matched.store, Store.output_mapValues]
  refine ⟨⟨along.matched.tagged, along.matched.store, along.matched.stamps, along.matched.clock,
    along.matched.readings⟩, ⟨lines ++ [(w.store.output env, text)], ?_, ?_⟩, ?_, along.timers, ?_⟩
  · simp [World.writeLine, World.note, printed, Event.ofLines]
  · rw [World.writeLine, World.lines_note, printed', stream]
    simp [Event.line?]
  · rw [World.quiet_writeLine]
    exact along.machines
  · rw [World.outcomes_writeLine]
    exact along.outcomes

theorem readClock (along : Along s s' konts w w') :
    w'.readClock.1 = w.readClock.1 ∧ Along s s' konts w.readClock.2 w'.readClock.2 := by
  obtain ⟨tagged, store, stamps, clock, readings⟩ := along.matched
  refine ⟨?_, ⟨tagged, store, stamps, clock, ?_⟩, along.printed, along.machines, along.timers,
    along.outcomes⟩
  · simp only [World.readClock, clock, readings]
  · simp only [World.readClock, readings]

theorem reportElapsed (along : Along s s' konts w w') (env : Env) (start : Nat) :
    Along s s' konts (w.reportElapsed env start) (w'.reportElapsed env start) := by
  obtain ⟨sameTime, read⟩ := along.readClock
  have reported := read.writeLine env (World.elapsedText (w.readClock.1 - start))
  simp only [World.reportElapsed, sameTime]
  exact reported

end Along

inductive Call.Move (s t : Call × World) : Prop where
  | made : s.1.perform s.2 = .call t.1 t.2 → Move s t
  | woken {u v : World} {timer : Timer} : s.1.perform s.2 = .ended .suspended u →
      u.takeTimer? 0 = some (timer, v) → (Config.ofTimer timer v).view = t → Move s t

abbrev Call.Moves : Call × World → Call × World → Prop := Relation.ReflTransGen Call.Move

theorem Call.Moves.head {c c' : Call} {w w' : World} {t : Call × World} (made : c.perform w = .call c' w')
    (moves : Call.Moves (c', w') t) : Call.Moves (c, w) t :=
  Relation.ReflTransGen.head (.made made) moves

section Waking

variable {w : World} {m : MachineId}

theorem World.lines_quiet (w : World) : w.quiet.lines = w.lines := by
  simp only [lines, quiet, events, Array.toList_filter, List.filterMap_filter]
  congr 1
  funext event
  cases event <;> rfl

theorem World.outcomes_quiet (w : World) : w.quiet.outcomes = w.outcomes := by
  simp only [outcomes, quiet, events, Array.toList_filter, List.filterMap_filter]
  congr 1
  funext event
  cases event <;> rfl

theorem World.arm_woken (running : w.loop? m = some .running) (untimed : w.timers = [])
    (milliseconds : Float) (k : Kont) (v : Value) :
    ∃ u t after q, w.arm m milliseconds k v = .ended .suspended u ∧ u.takeTimer? 0 = some (t, after) ∧
      (Config.ofTimer t after).view = (.resume k v, q) ∧ q.store = w.store ∧ q.stamps = w.stamps ∧
      q.clock = w.clock ∧ q.readings = w.readings ∧ q.timers = [] ∧ q.lines = w.lines ∧
      q.outcomes = w.outcomes ∧ q.quiet.machines = w.quiet.machines := by
  let counted := w.updateMachine m fun machine => { machine with pending := machine.pending + 1 }
  let armed := counted.note (.armed milliseconds (((counted.machine? m).map Machine.pending).getD 0))
  let t : Timer := ⟨m, armed.now + delaySeconds milliseconds, k, v⟩
  let after : World := { armed with timers := [], now := t.due }
  let woken := after.updateMachine m fun machine => { machine with pending := machine.pending - 1 }
  have loop : (w.machine? m).map Machine.loop = some .running := running
  refine ⟨{ armed with timers := armed.timers ++ [t] }, t, after, (woken.refill m).quiet, ?_, ?_, rfl, ?_, ?_,
    ?_, ?_, ?_, ?_, ?_, ?_⟩
  · unfold arm
    rw [loop]
  · have timers : armed.timers = [] := untimed
    simp [takeTimer?, timers, after]
  iterate 5 simp only [quiet, refill, updateMachine, note, woken, after, armed, counted]
  · rw [lines_quiet]
    exact (lines_note counted _).trans (List.append_nil _)
  · rw [outcomes_quiet]
    exact (outcomes_note counted _).trans (List.append_nil _)
  · apply Array.ext
    · simp [quiet, refill, woken, after, armed, counted, updateMachine, note]
    · intro i bound₁ bound₂
      by_cases here : m = i <;>
        simp [quiet, refill, woken, after, armed, counted, updateMachine, note, here, Machine.quiet,
          Array.getElem_modify]

end Waking

def Arrives (s s' : World) (konts : Nat → Kont) (n : Nat) (start : Call × World) (k : (Nat → Kont) → Kont)
    (v : Value) (w : World) : Prop :=
  ∃ konts' w', (∀ tag < n, konts' tag = konts tag) ∧ n ≤ w.stamps ∧ v.Tagged w.stamps ∧
    Along s s' konts' w w' ∧ Call.Moves start (.resume (k konts') (v.inMachine konts'), w')

-- A value goes to the continuation at hand, an escape to that of its tag.
def Traces (s s' : World) (konts : Nat → Kont) (n : Nat) (start : Call × World) (k : Kont) :
    Escaping.Outcome Value → Prop
  | .done v w => Arrives s s' konts n start (fun _ => k) v w
  | .escaped tag v w => tag < w.stamps ∧ Arrives s s' konts n start (fun konts' => konts' tag) v w
  | .failed .. => True
  | .unfinished => True

section Traces

variable {s s' w w' : World} {konts : Nat → Kont} {n : Nat} {k : Kont}

theorem arrives_moves {start next : Call × World} {k : (Nat → Kont) → Kont} {v : Value} {konts' : Nat → Kont}
    {n' : Nat} (moves : Call.Moves start next) (agree : ∀ tag < n, konts' tag = konts tag) (le : n ≤ n')
    (arrives : Arrives s s' konts' n' next k v w) : Arrives s s' konts n start k v w := by
  obtain ⟨konts'', w', agree', le', tagged, along, rest⟩ := arrives
  refine ⟨konts'', w', ?_, Nat.le_trans le le', tagged, along, moves.trans rest⟩
  intro tag below
  rw [agree' tag (Nat.lt_of_lt_of_le below le), agree tag below]

theorem traces_moves {start next : Call × World} {konts' : Nat → Kont} {n' : Nat}
    {outcome : Escaping.Outcome Value} (moves : Call.Moves start next)
    (agree : ∀ tag < n, konts' tag = konts tag) (le : n ≤ n') (traces : Traces s s' konts' n' next k outcome) :
    Traces s s' konts n start k outcome := by
  cases outcome with
  | done v w => exact arrives_moves moves agree le traces
  | escaped tag v w => exact ⟨traces.1, arrives_moves moves agree le traces.2⟩
  | failed cause w => trivial
  | unfinished => trivial

theorem traces_call {c c' : Call} {u u' : World} {outcome : Escaping.Outcome Value}
    (made : c.perform u = .call c' u') (traces : Traces s s' konts n (c', u') k outcome) :
    Traces s s' konts n (c, u) k outcome :=
  traces_moves (.single (.made made)) (fun _ _ => rfl) (Nat.le_refl n) traces

theorem traces_resume (v : Value) (along : Along s s' konts w w') (le : n ≤ w.stamps)
    (tagged : v.Tagged w.stamps) {start : Call × World}
    (moves : Call.Moves start (.resume k (v.inMachine konts), w')) : Traces s s' konts n start k (.done v w) :=
  ⟨konts, w', fun _ _ => rfl, le, tagged, along, moves⟩

theorem traces_bind {start : Call × World} {x : Escaping.Eval Value} {f : Value → Escaping.Eval Value}
    (frame : Frame) (first : Traces s s' konts n start (frame :: k) (x w))
    (rest : ∀ v u u' konts', (∀ tag < n, konts' tag = konts tag) → n ≤ u.stamps → v.Tagged u.stamps →
      Along s s' konts' u u' →
      Traces s s' konts' u.stamps (.resume (frame :: k) (v.inMachine konts'), u') k (f v u)) :
    Traces s s' konts n start k (Escaping.Eval.bind x f w) := by
  unfold Escaping.Eval.bind
  cases outcome : x w with
  | done v u =>
      rw [outcome] at first
      obtain ⟨konts', u', agree, le, tagged, along, moves⟩ := first
      exact traces_moves moves agree le (rest v u u' konts' agree le tagged along)
  | escaped tag v u =>
      rw [outcome] at first
      exact first
  | failed cause u => trivial
  | unfinished => trivial

end Traces

section

variable (m : MachineId) (s s' : World) (bound : Nat)

def EvalTraced : Prop :=
  ∀ e env k konts w w', Along s s' konts w w' →
    Traces s s' konts w.stamps (.evaluate m e env k, w') k (Escaping.eval bound e env w)

def CallTraced : Prop :=
  ∀ func args env k konts w w', Along s s' konts w w' → func.Tagged w.stamps →
    (∀ v ∈ args, v.Tagged w.stamps) →
    Traces s s' konts w.stamps
      (.apply m (func.inMachine konts) (args.map (Value.inMachine konts)) env k, w') k
      (Escaping.call bound func args env w)

variable {m s s' bound} {k : Kont} {konts : Nat → Kont} {w w' : World}

theorem Escaping.Eval.bind_assoc {α β γ : Type} (x : Escaping.Eval α) (f : α → Escaping.Eval β)
    (g : β → Escaping.Eval γ) : bind (bind x f) g = bind x fun a => bind (f a) g := by
  funext w
  simp only [bind]
  cases x w <;> rfl

theorem evalLast_traced (eval : EvalTraced m s s' bound) (env : Env) (es : List Expr) (last : Value)
    (tagged : last.Tagged w.stamps) (along : Along s s' konts w w') :
    Traces s s' konts w.stamps (.items m (last.inMachine konts) es env k, w') k
      (Escaping.evalLast (Escaping.eval bound) env last es w) := by
  induction es generalizing last konts w w' with
  | nil => exact traces_resume last along (Nat.le_refl _) tagged (.single (.made rfl))
  | cons e es ih =>
      refine traces_call rfl (traces_bind (.item m es env) (eval e env _ konts w w' along) ?_)
      intro v u u' konts' _ _ taggedV alongU
      exact traces_call rfl (ih v taggedV alongU)

theorem arguments_traced (eval : EvalTraced m s s' bound) (call : CallTraced m s s' bound) (func : Value)
    (env : Env) (es : List Expr) (done : List Value) (taggedF : func.Tagged w.stamps)
    (taggedD : ∀ v ∈ done, v.Tagged w.stamps) (along : Along s s' konts w w') :
    Traces s s' konts w.stamps
      (.arguments m (func.inMachine konts) (done.map (Value.inMachine konts)) es env k, w') k
      (Escaping.Eval.bind (Escaping.evalEach (Escaping.eval bound) env es)
        (fun vs => Escaping.call bound func (done ++ vs) env) w) := by
  induction es generalizing done konts w w' with
  | nil =>
      refine traces_call rfl ?_
      have called := call func done env k konts w w' along taggedF taggedD
      simpa only [Escaping.evalEach, Escaping.Eval.bind, Escaping.Eval.pure, List.append_nil] using called
  | cons e es ih =>
      have split : Escaping.Eval.bind (Escaping.evalEach (Escaping.eval bound) env (e :: es))
            (fun vs => Escaping.call bound func (done ++ vs) env) =
          Escaping.Eval.bind (Escaping.eval bound e env) fun v =>
            Escaping.Eval.bind (Escaping.evalEach (Escaping.eval bound) env es)
              fun vs => Escaping.call bound func (done ++ [v] ++ vs) env := by
        simp only [Escaping.evalEach, List.append_assoc, List.cons_append, List.nil_append]
        exact (Escaping.Eval.bind_assoc _ _ _).trans
          (congrArg _ (funext fun v => Escaping.Eval.bind_assoc _ _ _))
      rw [split]
      refine traces_call rfl (traces_bind
        (.argument m (func.inMachine konts) (done.map (Value.inMachine konts)) es env)
        (eval e env _ konts w w' along) ?_)
      intro v u u' konts' agree le taggedV alongU
      -- the frame was made with the continuations of that time
      have sameF : func.inMachine konts = func.inMachine konts' := (Value.inMachine_congr taggedF agree).symm
      have sameD : done.map (Value.inMachine konts) = done.map (Value.inMachine konts') :=
        List.map_congr_left fun x member => (Value.inMachine_congr (taggedD x member) agree).symm
      have taggedDone : ∀ x ∈ done ++ [v], x.Tagged u.stamps :=
        List.forall_mem_append.mpr
          ⟨fun x member => (taggedD x member).mono le, List.forall_mem_singleton.mpr taggedV⟩
      rw [sameF, sameD]
      refine traces_call rfl ?_
      have rest := ih (done ++ [v]) (taggedF.mono le) taggedDone alongU
      rwa [List.map_append] at rest

theorem bindings_traced (eval : EvalTraced m s s' bound) (body : Expr) (bs : List Binding) (env : Env)
    (along : Along s s' konts w w') :
    Traces s s' konts w.stamps (.bindings m bs body env k, w') k
      (Escaping.Eval.bind (Escaping.evalBindings (Escaping.eval bound) env bs)
        (fun inner => Escaping.eval bound body inner) w) := by
  induction bs generalizing env konts w w' with
  | nil => exact traces_call rfl (eval body env k konts w w' along)
  | cons b bs ih =>
      obtain ⟨name, init⟩ := b
      have split : Escaping.Eval.bind (Escaping.evalBindings (Escaping.eval bound) env (.mk name init :: bs))
            (fun inner => Escaping.eval bound body inner) =
          Escaping.Eval.bind (Escaping.evalInit (Escaping.eval bound) env init) fun v w =>
            Escaping.Eval.bind (Escaping.evalBindings (Escaping.eval bound) (w.bind env name v).1 bs)
              (fun inner => Escaping.eval bound body inner) (w.bind env name v).2 := by
        simp only [Escaping.evalBindings]
        exact (Escaping.Eval.bind_assoc _ _ _).trans
          (congrArg _ (funext fun v => Escaping.Eval.bind_assoc _ _ _))
      rw [split]
      have first : Traces s s' konts w.stamps (.bindings m (.mk name init :: bs) body env k, w')
          (.init m name bs body env :: k) (Escaping.evalInit (Escaping.eval bound) env init w) := by
        by_cases absent : init.isHole
        · simp only [Escaping.evalInit, if_pos absent]
          refine traces_resume .no along (Nat.le_refl _) trivial (.single (.made ?_))
          simp only [Call.perform, Call.nextBinding, if_pos absent]
          rfl
        · simp only [Escaping.evalInit, if_neg absent]
          refine traces_call ?_ (eval init env _ konts w w' along)
          simp only [Call.perform, Call.nextBinding, if_neg absent]
      refine traces_bind (.init m name bs body env) first ?_
      intro v u u' konts' agree le taggedV alongU
      obtain ⟨sameEnv, inner⟩ := alongU.bind env name v taggedV
      have made : (Call.resume (.init m name bs body env :: k) (v.inMachine konts')).perform u' =
          .call (.bindings m bs body (u'.bind env name (v.inMachine konts')).1 k)
            (u'.bind env name (v.inMachine konts')).2 := rfl
      rw [sameEnv] at made
      exact traces_call made (ih _ inner)

theorem read_traced (env : Env) (name : String) (along : Along s s' konts w w') :
    Traces s s' konts w.stamps (.evaluate m (.var name) env k, w') k
      (Escaping.Eval.lift (Direct.read env name) w) := by
  have found := Store.get?_mapValues (Value.inMachine konts) w.store env name
  rw [← along.matched.store] at found
  unfold Escaping.Eval.lift Direct.read
  cases here : w.store.get? env name with
  | none => trivial
  | some v =>
      rw [here] at found
      have tagged := Store.holds_get? along.matched.tagged.holds env name v here
      refine traces_resume v along (Nat.le_refl _) tagged (.single (.made ?_))
      simp only [Call.perform, Call.evaluateExpr, found]
      rfl

theorem write_traced (env : Env) (name : String) (v : Value) (tagged : v.Tagged w.stamps)
    (along : Along s s' konts w w') :
    Traces s s' konts w.stamps (.resume (.assign m name env :: k) (v.inMachine konts), w') k
      (Escaping.Eval.lift (Direct.write env name v) w) := by
  have found := Store.target?_mapValues (Value.inMachine konts) w.store env name
  rw [← along.matched.store] at found
  unfold Escaping.Eval.lift Direct.write
  cases here : w.store.target? env name with
  | none => trivial
  | some i =>
      rw [here] at found
      refine traces_resume v (along.setVar i name v tagged) (Nat.le_refl _) tagged (.single (.made ?_))
      simp only [Call.perform, Call.resumeFrame, found]

theorem operator_traced (op : String) (a b : Value) (taggedA : a.Tagged w.stamps)
    (taggedB : b.Tagged w.stamps) (along : Along s s' konts w w') :
    Traces s s' konts w.stamps
      (.resume (.right m op (a.inMachine konts) :: k) (b.inMachine konts), w') k
      (Escaping.Eval.lift (Direct.Eval.ofExcept (applyOperator op a b)) w) := by
  cases result : applyOperator op a b with
  | error cause => trivial
  | ok v =>
      have applied : applyOperator op (a.inMachine konts) (b.inMachine konts) = .ok (v.inMachine konts) :=
        applyOperator_inMachine op a b v taggedA taggedB result
      have tagged : v.Tagged w.stamps :=
        applyOperator_holds (fun _ => trivial) (fun _ => trivial) op a b v taggedA taggedB result
      refine traces_resume v along (Nat.le_refl _) tagged (.single (.made ?_))
      simp only [Call.perform, Call.resumeFrame, applied]

theorem branch_traced (eval : EvalTraced m s s' bound) (v : Value) (yes no : Expr) (env : Env)
    (along : Along s s' konts w w') :
    Traces s s' konts w.stamps (.resume (.branch m yes no env :: k) (v.inMachine konts), w') k
      ((if v.truthy then Escaping.eval bound yes env
        else if no.isHole then Escaping.Eval.pure .no
        else Escaping.eval bound no env : Escaping.Eval Value) w) := by
  have chosen : (Call.resume (.branch m yes no env :: k) (v.inMachine konts)).perform w' =
      if v.truthy then .call (.evaluate m yes env k) w'
      else if no.isHole then .call (.resume k .no) w'
      else .call (.evaluate m no env k) w' := by
    rw [← v.truthy_inMachine konts]
    rfl
  by_cases truth : v.truthy = true
  · rw [if_pos truth] at chosen ⊢
    exact traces_call chosen (eval yes env k konts w w' along)
  · rw [if_neg truth] at chosen ⊢
    by_cases absent : no.isHole = true
    · rw [if_pos absent] at chosen ⊢
      exact traces_resume .no along (Nat.le_refl _) trivial (.single (.made chosen))
    · rw [if_neg absent] at chosen ⊢
      exact traces_call chosen (eval no env k konts w w' along)

theorem eval_traced_succ (eval : EvalTraced m s s' bound) (call : CallTraced m s s' bound) :
    EvalTraced m s s' (bound + 1) := by
  intro e env k konts w w' along
  cases e with
  | num x => exact traces_resume (.num x) along (Nat.le_refl _) trivial (.single (.made rfl))
  | str x => exact traces_resume (.str x) along (Nat.le_refl _) trivial (.single (.made rfl))
  | bool x => exact traces_resume (.bool x) along (Nat.le_refl _) trivial (.single (.made rfl))
  | var name => exact read_traced env name along
  | assign target value =>
      cases target with
      | var name =>
          refine traces_call rfl (traces_bind (.assign m name env) (eval value env _ konts w w' along) ?_)
          intro v u u' konts' _ _ tagged alongU
          exact write_traced env name v tagged alongU
      | _ => trivial
  | binary op left right =>
      refine traces_call rfl (traces_bind (.left m op right env) (eval left env _ konts w w' along) ?_)
      intro a u u' konts' _ _ taggedA alongU
      refine traces_call rfl (traces_bind (.right m op (a.inMachine konts'))
        (eval right env _ konts' u u' alongU) ?_)
      intro b v v' konts'' agree le taggedB alongV
      rw [← Value.inMachine_congr taggedA agree]
      exact operator_traced op a b (taggedA.mono le) taggedB alongV
  | lambda params body name =>
      obtain ⟨c, made, made', le, next⟩ := along.makeClosure params body name env
      have evaluated : Escaping.eval (bound + 1) (.lambda params body name) env w =
          .done (w.makeClosure params body name env).1 (w.makeClosure params body name env).2 := rfl
      have performed : (Call.evaluate m (.lambda params body name) env k).perform w' =
          .call (.resume k (w'.makeClosure params body name env).1)
            (w'.makeClosure params body name env).2 := rfl
      rw [made] at evaluated
      rw [made'] at performed
      rw [evaluated]
      exact traces_resume (.closure c) next le trivial (.single (.made performed))
  | cond test yes no =>
      refine traces_call rfl (traces_bind (.branch m yes no env) (eval test env _ konts w w' along) ?_)
      intro v u u' konts' _ _ _ alongU
      exact branch_traced eval v yes no env alongU
  | prog body => exact traces_call rfl (evalLast_traced eval env body .no trivial along)
  | call func args =>
      refine traces_call rfl (traces_bind (.callee m args env) (eval func env _ konts w w' along) ?_)
      intro f u u' konts' _ _ tagged alongU
      exact traces_call rfl (arguments_traced eval call f env args [] tagged (by simp) alongU)
  | letIn bs body => exact traces_call rfl (bindings_traced eval body bs env along)
  | hole => trivial
  | binding b => trivial

theorem traces_catching {start : Call × World} {n tag : Nat} {x : Escaping.Eval Value} (given : tag < n)
    (here : konts tag = k) (traces : Traces s s' konts n start k (x w)) :
    Traces s s' konts n start k (Escaping.Eval.catching tag x w) := by
  unfold Escaping.Eval.catching
  cases outcome : x w with
  | escaped other v u =>
      rw [outcome] at traces
      dsimp only
      by_cases same : other = tag
      · subst same
        rw [if_pos rfl]
        obtain ⟨_, konts', u', agree, le, tagged, along, moves⟩ := traces
        dsimp only at moves
        rw [agree other given, here] at moves
        exact ⟨konts', u', agree, le, tagged, along, moves⟩
      · rw [if_neg same]
        exact traces
  | done v u =>
      rw [outcome] at traces
      exact traces
  | failed cause u => trivial
  | unfinished => trivial

theorem time_traced (call : CallTraced m s s' bound) (name : String) (stamp : Nat) (args : List Value)
    (env : Env) (tagged : ∀ v ∈ args, v.Tagged w.stamps) (along : Along s s' konts w w') :
    Traces s s' konts w.stamps
      (.apply m (.builtin ⟨name, .cps, .time, stamp⟩) (args.map (Value.inMachine konts)) env k, w') k
      (Escaping.timed env (Escaping.call bound (firstArg args) [] env) w) := by
  obtain ⟨sameTime, read⟩ := along.readClock
  have made : (Call.apply m (.builtin ⟨name, .cps, .time, stamp⟩) (args.map (Value.inMachine konts)) env
        k).perform w' =
      .call (.apply m (firstArg (args.map (Value.inMachine konts))) [] env (.timed w'.readClock.1 env :: k))
        w'.readClock.2 := rfl
  rw [sameTime, firstArg_map (Value.inMachine konts) rfl] at made
  have first : (firstArg args).Tagged w.stamps := firstArg_holds trivial args tagged
  have thunk := call (firstArg args) [] env (.timed w.readClock.1 env :: k) konts _ _ read first (by simp)
  refine traces_call made (traces_bind (.timed w.readClock.1 env) thunk ?_)
  intro v u u' konts' _ _ taggedV alongU
  exact traces_resume v (alongU.reportElapsed env _) (Nat.le_refl _) taggedV (.single (.made rfl))

theorem sleep_traced (running : s'.loop? m = some .running) (untimed : s'.timers = []) (name : String)
    (stamp : Nat) (args : List Value) (env : Env) (along : Along s s' konts w w') :
    Traces s s' konts w.stamps
      (.apply m (.builtin ⟨name, .cps, .sleep, stamp⟩) (args.map (Value.inMachine konts)) env k, w') k
      (Escaping.Eval.bind (Escaping.Eval.lift (Direct.Eval.ofExcept (firstArg args).toNumber))
        (fun _ => Escaping.Eval.pure .no) w) := by
  cases number : (firstArg args).toNumber with
  | error cause => trivial
  | ok milliseconds =>
      have loop : w'.loop? m = some .running := by
        rw [← World.quiet_loop?, World.loop?, World.machine?, along.machines]
        exact (World.quiet_loop? s' m).trans running
      obtain ⟨u, t, after, q, armed, taken, view, store, stamps, clock, readings, timers, lines, outcomes,
        machines⟩ := World.arm_woken loop (along.timers.trans untimed) milliseconds k .no
      have performed : (Call.apply m (.builtin ⟨name, .cps, .sleep, stamp⟩)
          (args.map (Value.inMachine konts)) env k).perform w' = .ended .suspended u := by
        have first : (firstArg (args.map (Value.inMachine konts))).toNumber = .ok milliseconds := by
          rw [firstArg_map (Value.inMachine konts) rfl, Value.eq_num_of_toNumber number]
          rfl
        simp only [Call.perform, Call.applyValue, Call.applyBuiltin, first]
        exact armed
      obtain ⟨tagged, sameStore, sameStamps, sameClock, sameReadings⟩ := along.matched
      have slept : Along s s' konts w q :=
        ⟨⟨tagged, store.trans sameStore, stamps.trans sameStamps, clock.trans sameClock,
          readings.trans sameReadings⟩, by rw [lines]; exact along.printed, machines.trans along.machines,
          timers.trans untimed.symm, outcomes.trans along.outcomes⟩
      exact traces_resume .no slept (Nat.le_refl _) trivial (.single (.woken performed taken view))

theorem callcc_traced (call : CallTraced m s s' bound) (name : String) (stamp : Nat) (args : List Value)
    (env : Env) (tagged : ∀ v ∈ args, v.Tagged w.stamps) (along : Along s s' konts w w') :
    Traces s s' konts w.stamps
      (.apply m (.builtin ⟨name, .cps, .callcc, stamp⟩) (args.map (Value.inMachine konts)) env k, w') k
      (Escaping.Eval.catching w.stamps (Escaping.call bound (firstArg args) [.continuation w.stamps []] env)
        { w with stamps := w.stamps + 1 }) := by
  let konts' : Nat → Kont := fun tag => if tag = w.stamps then k else konts tag
  have agree : ∀ tag < w.stamps, konts' tag = konts tag := fun tag below => if_neg (Nat.ne_of_lt below)
  have here : konts' w.stamps = k := if_pos rfl
  have first : (firstArg args).Tagged w.stamps := firstArg_holds trivial args tagged
  have made : (Call.apply m (.builtin ⟨name, .cps, .callcc, stamp⟩) (args.map (Value.inMachine konts)) env
        k).perform w' =
      .call (.apply m (firstArg (args.map (Value.inMachine konts))) [.continuation w'.stamps k] env k)
        { w' with stamps := w'.stamps + 1 } := rfl
  rw [firstArg_map (Value.inMachine konts) rfl, ← Value.inMachine_congr first agree, along.matched.stamps] at made
  have called := call (firstArg args) [.continuation w.stamps []] env k konts' _ _ (along.retag agree).fresh
    (first.mono (Nat.le_succ _)) (List.forall_mem_singleton.mpr (Nat.lt_succ_self _))
  simp only [List.map_cons, List.map_nil, Value.inMachine, here, along.matched.stamps] at called
  exact traces_moves (.single (.made made)) agree (Nat.le_succ _)
    (traces_catching (Nat.lt_succ_self _) here called)

theorem builtin_traced (running : s'.loop? m = some .running) (untimed : s'.timers = [])
    (call : CallTraced m s s' bound) (b : Builtin) (args : List Value) (env : Env)
    (along : Along s s' konts w w') (sync : b.mode = .sync) (tagged : ∀ v ∈ args, v.Tagged w.stamps) :
    Traces s s' konts w.stamps (.apply m (.builtin b.inCps) (args.map (Value.inMachine konts)) env k, w') k
      (Escaping.callBuiltin (fun f vs => Escaping.call bound f vs env) b args env w) := by
  obtain ⟨name, mode, action, stamp⟩ := b
  cases sync
  cases action with
  | print =>
      refine traces_resume .no (along.writeLine env (printText args)) (Nat.le_refl _) trivial
        (.single (.made ?_))
      simp only [Call.perform, Call.applyValue, Builtin.inCps, Call.applyBuiltin, printText_inMachine]
      rfl
  | time => exact time_traced call name stamp args env tagged along
  | halt => trivial
  | sleep => exact sleep_traced running untimed name stamp args env along
  | callcc => exact callcc_traced call name stamp args env tagged along

theorem call_traced_succ (running : s'.loop? m = some .running) (untimed : s'.timers = [])
    (eval : EvalTraced m s s' bound) (call : CallTraced m s s' bound) : CallTraced m s s' (bound + 1) := by
  intro func args env k konts w w' along taggedF taggedA
  cases func with
  | closure c =>
      obtain ⟨sameEnv, inner⟩ := along.bindParams c args taggedA
      have made : (Call.enter m c (args.map (Value.inMachine konts)) k).perform w' =
          .call (.evaluate m c.body (w'.bindParams c (args.map (Value.inMachine konts))).1 k)
            (w'.bindParams c (args.map (Value.inMachine konts))).2 := rfl
      rw [sameEnv] at made
      exact traces_call rfl (traces_call made (eval c.body _ k konts _ _ inner))
  | builtin b => exact builtin_traced running untimed call b args env along taggedF taggedA
  | continuation tag frames =>
      refine ⟨taggedF, konts, w', fun _ _ => rfl, Nat.le_refl _, firstArg_holds trivial args taggedA, along,
        .single (.made ?_)⟩
      rw [← firstArg_map (Value.inMachine konts) rfl]
      rfl
  | _ => trivial

theorem traced (m : MachineId) (s s' : World) (running : s'.loop? m = some .running)
    (untimed : s'.timers = []) (bound : Nat) : EvalTraced m s s' bound ∧ CallTraced m s s' bound := by
  induction bound with
  | zero => exact ⟨fun _ _ _ _ _ _ _ => trivial, fun _ _ _ _ _ _ _ _ _ _ => trivial⟩
  | succ bound ih => exact ⟨eval_traced_succ ih.1 ih.2, call_traced_succ running untimed ih.1 ih.2⟩

end

end Trampoline

import Trampoline.Proofs.CallCC

set_option autoImplicit false

namespace Trampoline

namespace Call

def performAwake (c : Call) (w : World) : Next :=
  match c with
  | .apply _ (.builtin ⟨_, .cps, .sleep, _⟩) args _ k =>
      match (firstArg args).toNumber with
      | .ok _ => .call (.resume k .no) w
      | .error cause => fail cause w
  | c => c.perform w

end Call

def Config.stepAwake : Config → Step
  | ⟨driver, legs, call, w⟩ =>
      match call.checkpoint? with
      | none => advance driver legs (call.performAwake w)
      | some (m, _) =>
          if w.canSpend m then advance driver legs (call.performAwake (w.spend m))
          else .next ⟨driver, legs + 1, call, w.refill driver⟩

def driveAwake : Nat → Config → Option (Ending × World)
  | 0, _ => none
  | bound + 1, c =>
      match c.stepAwake with
      | .next c => driveAwake bound c
      | .ended e w => some (e, w)

inductive Call.Sleeps (m : MachineId) (milliseconds : Float) (k : Kont) : Call → Prop where
  | mk (name : String) (stamp : Nat) (args : List Value) (env : Env) :
      (firstArg args).toNumber = .ok milliseconds →
        Sleeps m milliseconds k (.apply m (.builtin ⟨name, .cps, .sleep, stamp⟩) args env k)

namespace Call

variable {m : MachineId} {milliseconds : Float} {k : Kont} {c : Call}

theorem Sleeps.perform (sleeps : c.Sleeps m milliseconds k) (w : World) :
    c.perform w = w.arm m milliseconds k .no := by
  obtain ⟨name, stamp, args, env, number⟩ := sleeps
  simp only [Call.perform, applyValue, applyBuiltin, number]

theorem Sleeps.awake (sleeps : c.Sleeps m milliseconds k) (w : World) :
    c.performAwake w = .call (.resume k .no) w := by
  obtain ⟨name, stamp, args, env, number⟩ := sleeps
  simp only [performAwake, number]

theorem Sleeps.owned {n : MachineId} (sleeps : c.Sleeps m milliseconds k) (owned : c.OwnedBy n) :
    m = n ∧ framesOwnedBy n k := by
  obtain ⟨name, stamp, args, env, _⟩ := sleeps
  exact ⟨owned.1, owned.2.2.2⟩

theorem sleeps_or_awake (c : Call) :
    (∃ m milliseconds k, c.Sleeps m milliseconds k) ∨ ∀ w, c.performAwake w = c.perform w := by
  cases c with
  | apply m func args env k =>
      cases func with
      | builtin b =>
          obtain ⟨name, mode, action, stamp⟩ := b
          cases mode with
          | sync => exact .inr fun _ => rfl
          | cps =>
              cases action with
              | sleep =>
                  cases number : (firstArg args).toNumber with
                  | ok milliseconds => exact .inl ⟨m, milliseconds, k, .mk name stamp args env number⟩
                  | error cause =>
                      refine .inr fun w => ?_
                      simp only [performAwake, perform, applyValue, applyBuiltin, number]
              | _ => exact .inr fun _ => rfl
      | _ => exact .inr fun _ => rfl
  | _ => exact .inr fun _ => rfl

theorem performAwake_of_call {c c' : Call} {w w' : World} (made : c.perform w = .call c' w') :
    ∀ u, c.performAwake u = c.perform u := by
  rcases c.sleeps_or_awake with ⟨m, milliseconds, k, sleeps⟩ | awake
  · obtain ⟨e, after, ended, _⟩ := World.arm_ended w m milliseconds k .no
    cases made.symm.trans ((sleeps.perform w).trans ended)
  · exact awake

end Call

def World.core (w : World) : World :=
  { w with machines := #[], timers := [], now := 0, trace := w.trace.filter fun event => event.line?.isSome,
           checks := none }

namespace World

theorem core_store (w : World) : w.core.store = w.store := rfl

theorem core_stamps (w : World) : w.core.stamps = w.stamps := rfl

theorem core_readings (w : World) : w.core.readings = w.readings := rfl

theorem core_note (w : World) (event : Event) (silent : event.line? = none) : (w.note event).core = w.core := by
  simp [core, note, silent]

theorem core_writeLine (w : World) (env : Env) (text : String) :
    (w.writeLine env text).core = w.core.writeLine env text := by
  simp [core, writeLine, note, Event.line?]

theorem core_makeClosure (w : World) (params : List String) (body : Expr) (name : Option String) (env : Env) :
    w.core.makeClosure params body name env =
      ((w.makeClosure params body name env).1, (w.makeClosure params body name env).2.core) := by
  by_cases anonymous : (name.getD "").isEmpty
  · simp only [makeClosure, if_pos anonymous]
    rfl
  · simp only [makeClosure, if_neg anonymous]
    rfl

theorem core_quiet (w : World) : w.quiet.core = w.core := by
  have lines : w.events.filter (fun event => event.line?.isSome) =
      w.trace.filter fun event => event.line?.isSome := by
    rw [events, Array.filter_filter]
    congr 1
    funext event
    cases event <;> rfl
  simp only [core, quiet, lines]

theorem core_countLegs (w : World) (m : MachineId) (legs : Nat) : (w.countLegs m legs).core = w.core := by
  rw [← core_quiet, quiet_countLegs, core_quiet]

theorem core_arm {w after : World} {m : MachineId} {milliseconds : Float} {k : Kont} {v : Value} {e : Ending}
    (armed : w.arm m milliseconds k v = .ended e after) : after.core = w.core := by
  unfold arm at armed
  split at armed
  · cases armed
    rfl
  · cases armed
    rfl
  · dsimp only at armed
    split at armed
    · cases armed
      exact core_note _ _ rfl
    · cases armed
      exact core_note (w.updateMachine m _) (.armed milliseconds _) rfl

theorem core_paid {w u : World} (paid : u = w ∨ ∃ owner, u = w.spend owner) : u.core = w.core := by
  rcases paid with rfl | ⟨owner, rfl⟩
  · rfl
  · rfl

theorem lines_core (w : World) : w.core.lines = w.lines := by
  simp only [lines, core, Array.toList_filter, List.filterMap_filter]
  congr 1
  funext event
  cases event <;> rfl

end World

def Next.core : Next → Next
  | .call c w => .call c w.core
  | .ended e w => .ended e w.core

namespace Call

theorem evaluateExpr_core (m : MachineId) (e : Expr) (env : Env) (k : Kont) (w : World) :
    evaluateExpr m e env k w.core = (evaluateExpr m e env k w).core := by
  cases e with
  | var name =>
      simp only [evaluateExpr, World.core_store]
      cases w.store.get? env name <;> rfl
  | assign target value => cases target <;> rfl
  | lambda params body name =>
      simp only [evaluateExpr, World.core_makeClosure]
      rfl
  | _ => rfl

theorem resumeFrame_core (frame : Frame) (k : Kont) (v : Value) (w : World) :
    resumeFrame frame k v w.core = (resumeFrame frame k v w).core := by
  cases frame with
  | assign m name env =>
      simp only [resumeFrame, World.core_store]
      cases w.store.target? env name <;> rfl
  | right m op left =>
      simp only [resumeFrame]
      cases applyOperator op left v <;> rfl
  | branch m yes no env =>
      simp only [resumeFrame]
      split
      · rfl
      · split <;> rfl
  | timed start env =>
      simp only [resumeFrame, Next.core, World.reportElapsed, World.core_writeLine]
      rfl
  | _ => rfl

theorem performAwake_core (c : Call) (w : World) : c.performAwake w.core = (c.performAwake w).core := by
  cases c with
  | evaluate m e env k => exact evaluateExpr_core m e env k w
  | items m last rest env k => cases rest <;> rfl
  | arguments m func done rest env k => cases rest <;> rfl
  | bindings m rest body env k =>
      cases rest with
      | nil => rfl
      | cons b rest =>
          obtain ⟨name, init⟩ := b
          simp only [performAwake, perform, nextBinding]
          split <;> rfl
  | enter m closure args k => rfl
  | apply m func args env k =>
      cases func with
      | builtin b =>
          obtain ⟨name, mode, action, stamp⟩ := b
          cases mode with
          | sync => rfl
          | cps =>
              cases action with
              | print => simp only [performAwake, perform, applyValue, applyBuiltin, Next.core, World.core_writeLine]
              | sleep =>
                  simp only [performAwake]
                  cases (firstArg args).toNumber <;> rfl
              | _ => rfl
      | _ => rfl
  | resume k v =>
      cases k with
      | nil => rfl
      | cons frame k => exact resumeFrame_core frame k v w

theorem performAwake_ends {c : Call} {w w' : World} {e : Ending} (ended : c.performAwake w = .ended e w') :
    e ≠ .suspended := by
  rintro rfl
  have still := c.performAwake_core w
  rw [ended] at still
  rcases c.sleeps_or_awake with ⟨m, milliseconds, k, sleeps⟩ | awake
  · rw [sleeps.awake] at still
    cases still
  · rw [awake] at still
    have act := c.perform_act w.core
    generalize c.perform w.core = next at act still
    cases act with
    | goes | returns => cases still
    | stops e plain =>
        injection still with ending
        subst ending
        cases plain
    | sleeps _ milliseconds armed =>
        rw [still] at armed
        cases armed

-- The end of a run of calls that look at no budget and never wait, within a bound.
def flowAwake : Nat → Call → World → Option (Ending × World)
  | 0, _, _ => none
  | bound + 1, c, w =>
      match c.performAwake w with
      | .call c w => flowAwake bound c w
      | .ended e w => some (e, w)

theorem flowAwake_call {c c' : Call} {w w' : World} (made : c.performAwake w = .call c' w') (bound : Nat) :
    c.flowAwake (bound + 1) w = c'.flowAwake bound w' := by
  simp only [flowAwake, made]

theorem flowAwake_mono (bound : Nat) (c : Call) (w : World) (r : Ending × World)
    (ended : c.flowAwake bound w = some r) (more : Nat) (enough : bound ≤ more) :
    c.flowAwake more w = some r := by
  induction bound generalizing c w more with
  | zero => cases ended
  | succ bound ih =>
      obtain ⟨more, rfl⟩ : ∃ rest, more = rest + 1 := ⟨more - 1, by omega⟩
      rw [flowAwake] at ended ⊢
      split at ended
      · exact ih _ _ ended more (by omega)
      · exact ended

theorem flowAwake_unique {bound bound' : Nat} {c : Call} {w : World} {r r' : Ending × World}
    (ended : c.flowAwake bound w = some r) (ended' : c.flowAwake bound' w = some r') : r = r' := by
  have first := flowAwake_mono bound c w r ended (max bound bound') (Nat.le_max_left _ _)
  have second := flowAwake_mono bound' c w r' ended' (max bound bound') (Nat.le_max_right _ _)
  exact Option.some.inj (first.symm.trans second)

end Call

namespace Config

theorem stepAwake_cases (m : MachineId) (legs : Nat) (c : Call) (w : World) :
    stepAwake ⟨m, legs, c, w⟩ = .next ⟨m, legs + 1, c, w.refill m⟩ ∨
      ∃ u, (u = w ∨ ∃ owner, u = w.spend owner) ∧
        stepAwake ⟨m, legs, c, w⟩ = advance m legs (c.performAwake u) := by
  simp only [stepAwake]
  split
  · exact .inr ⟨w, .inl rfl, rfl⟩
  · rename_i owner _ _
    split
    · exact .inr ⟨w.spend owner, .inr ⟨owner, rfl⟩, rfl⟩
    · exact .inl rfl

theorem advance_core {m : MachineId} {legs : Nat} {next : Next} :
    (∀ d, advance m legs next = .next d → next.core = .call d.call d.world.core) ∧
      ∀ e w, advance m legs next = .ended e w → next.core = .ended e w.core := by
  cases next with
  | call c w =>
      refine ⟨?_, ?_⟩
      · intro d same
        cases same
        rfl
      · intro e after same
        cases same
  | ended e w =>
      cases e with
      | failed cause =>
          refine ⟨?_, ?_⟩
          · intro d same
            cases same
          · intro e after same
            cases same
            rfl
      | _ =>
          refine ⟨?_, ?_⟩
          · intro d same
            cases same
          · intro e after same
            cases same
            simp only [Next.core, World.core_countLegs]

theorem flowAwake_of_driveAwake (bound : Nat) (c : Config) (e : Ending) (w : World)
    (driven : driveAwake bound c = some (e, w)) :
    c.call.flowAwake bound c.world.core = some (e, w.core) := by
  induction bound generalizing c with
  | zero => cases driven
  | succ bound ih =>
      obtain ⟨m, legs, call, u⟩ := c
      rw [driveAwake] at driven
      rcases stepAwake_cases m legs call u with bounced | ⟨v, paid, performed⟩
      · rw [bounced] at driven
        exact Call.flowAwake_mono bound _ _ _ (ih _ driven) _ (Nat.le_succ bound)
      · have same := call.performAwake_core v
        rw [World.core_paid paid] at same
        rw [performed] at driven
        split at driven
        · rename_i d next
          rw [Call.flowAwake_call (same.trans (advance_core.1 d next))]
          exact ih d driven
        · rename_i ended
          cases driven
          simp only [Call.flowAwake, same.trans (advance_core.2 e w ended)]

theorem ready_performsAwake (c : Config) (ready : c.Ready) :
    ∃ d u, (d = c ∨ c.stepAwake = .next d) ∧ u.core = c.world.core ∧ Ready ⟨c.driver, d.legs, c.call, u⟩ ∧
      d.stepAwake = advance c.driver d.legs (c.call.performAwake u) := by
  obtain ⟨m, legs, call, w⟩ := c
  cases check : call.checkpoint? with
  | none => exact ⟨_, w, .inl rfl, rfl, ready, by simp only [stepAwake, check]⟩
  | some spending =>
      obtain ⟨owner, point⟩ := spending
      cases checkpoint_owner m owner point call ready.call check
      by_cases affordable : w.canSpend m = true
      · refine ⟨_, w.spend m, .inl rfl, rfl, ready_paid ready (.inr ⟨m, rfl⟩), ?_⟩
        simp only [stepAwake, check, if_pos affordable]
      · refine ⟨⟨m, legs + 1, call, w.refill m⟩, (w.refill m).spend m, .inr ?_, rfl,
          ready_paid (ready_refilled ready) (.inr ⟨m, rfl⟩), ?_⟩
        · simp only [stepAwake, check, if_neg affordable]
        · simp only [stepAwake, check, if_pos (World.canSpend_refill w m ready.positive)]

theorem ready_awake {m : MachineId} {legs : Nat} {call call' : Call} {w w' : World}
    (ready : Ready ⟨m, legs, call, w⟩) (made : call.performAwake w = .call call' w') :
    Ready ⟨m, legs, call', w'⟩ := by
  rcases call.sleeps_or_awake with ⟨owner, milliseconds, k, sleeps⟩ | awake
  · rw [sleeps.awake] at made
    cases made
    exact ⟨⟨(sleeps.owned ready.call).2, trivial⟩, ready.store, ready.positive⟩
  · rw [awake] at made
    have owned := call.perform_owned w ready.call ready.store
    have act := call.perform_act w
    rw [made] at owned act
    refine ⟨owned.1, owned.2, ?_⟩
    cases act with
    | goes machines _ _ =>
        exact World.canRefill_congr ready.positive (congrArg (Array.map Machine.budget) machines)
    | sleeps sleep milliseconds armed =>
        obtain ⟨e, after, ended, _⟩ := World.arm_ended w _ milliseconds _ .no
        cases armed.symm.trans ended

theorem driveAwake_head {bound : Nat} {c d : Config} {r : Ending × World} (next : d = c ∨ c.stepAwake = .next d)
    (driven : driveAwake bound d = some r) : ∃ bound', driveAwake bound' c = some r := by
  rcases next with rfl | next
  · exact ⟨bound, driven⟩
  · exact ⟨bound + 1, by simp only [driveAwake, next, driven]⟩

theorem driveAwake_of_flowAwake (bound : Nat) (c : Config) (e : Ending) (q : World) (ready : c.Ready)
    (ended : c.call.flowAwake bound c.world.core = some (e, q)) :
    ∃ bound' w, driveAwake bound' c = some (e, w) ∧ w.core = q := by
  induction bound generalizing c with
  | zero => cases ended
  | succ bound ih =>
      obtain ⟨d, u, first, same, ready', stepped⟩ := ready_performsAwake c ready
      have seen := c.call.performAwake_core u
      rw [same] at seen
      rw [Call.flowAwake, seen] at ended
      cases result : c.call.performAwake u with
      | call call' w' =>
          rw [result] at stepped ended
          obtain ⟨bound', w, driven, core⟩ :=
            ih ⟨c.driver, d.legs, call', w'⟩ (ready_awake ready' result) ended
          obtain ⟨bound', driven⟩ := driveAwake_head (.inr stepped) driven
          obtain ⟨bound', driven⟩ := driveAwake_head first driven
          exact ⟨bound', w, driven, core⟩
      | ended e' w' =>
          rw [result] at stepped ended
          cases ended
          obtain ⟨after, finished, quiet⟩ := finish_ended c.driver d.legs e w'
          rw [advance, finished] at stepped
          have driven : driveAwake 1 d = some (e, after) := by simp only [driveAwake, stepped]
          obtain ⟨bound', driven⟩ := driveAwake_head first driven
          exact ⟨bound', after, driven, by rw [← World.core_quiet, quiet, World.core_quiet]⟩

end Config

end Trampoline

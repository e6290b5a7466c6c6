import Trampoline.Proofs.Depth
import Trampoline.Proofs.Simulation

set_option autoImplicit false

namespace Trampoline

theorem runNoted_of_drive {bound : Nat} {m : MachineId} {e : Expr} {env : Env} {w after : World}
    {ending : Ending} (hooks : Hooks) (driven : drive bound (.ofProgram m e env w) = some (ending, after)) :
    ∃ noted, runNoted bound hooks m e env w = some noted ∧ noted.quiet =
      { after.quiet with trace := after.events ++ ending.events hooks (after.pending m) } := by
  refine ⟨_, Option.map_eq_some_iff.mpr ⟨(ending, after), driven, rfl⟩, ?_⟩
  rw [World.quiet_noteRan, World.quiet_noteRun, World.quiet_watch, World.noteRun_trace,
    World.quiet_pending]
  rfl

def reports (store : Store) (clock : Clock) : Nat → Kont → List (Stream × String)
  | _, [] => []
  | readings, .timed start env :: k =>
      (store.output env, World.elapsedText (clock (readings + 1) - start)) ::
        reports store clock (readings + 1) k
  | readings, _ :: k => reports store clock readings k

theorem reports_mapValues (f : Value → Value) (store : Store) (clock : Clock) (readings : Nat)
    (k : Kont) : reports (store.mapValues f) clock readings k = reports store clock readings k := by
  induction k generalizing readings with
  | nil => rfl
  | cons frame k ih =>
      cases frame with
      | timed start env => simp only [reports, Store.output_mapValues, ih]
      | _ => exact ih readings

theorem unwind_store (k : Kont) (w : World) : (unwind k w).store = w.store := by
  induction k generalizing w with
  | nil => rfl
  | cons frame k ih => cases frame <;> exact ih _

theorem unwind_trace (k : Kont) (w : World) :
    (unwind k w).trace = w.trace ++ Event.ofLines (reports w.store w.clock w.readings k) := by
  induction k generalizing w with
  | nil => simp [unwind, reports, Event.ofLines]
  | cons frame k ih =>
      cases frame with
      | timed start env =>
          rw [unwind, ih]
          simp [reports, World.reportElapsed, World.readClock, World.writeLine, World.note,
            Event.ofLines]
      | _ => exact ih w

namespace Corresponding

variable {w w' : World}

theorem of_quiet (corresponding : Corresponding w w'.quiet) : Corresponding w w' :=
  ⟨corresponding.direct, corresponding.store, corresponding.stamps, corresponding.clock,
    corresponding.readings⟩

theorem to_quiet (corresponding : Corresponding w w') : Corresponding w w'.quiet :=
  ⟨corresponding.direct, corresponding.store, corresponding.stamps, corresponding.clock,
    corresponding.readings⟩

theorem owned (corresponding : Corresponding w w') (m : MachineId) : w'.store.OwnedBy m := by
  rw [corresponding.store]
  refine Store.holds_mapValues Value.inCps corresponding.direct ?_
  intro v direct
  cases v with
  | continuation stamp frames => exact direct.elim
  | _ => trivial

theorem simulates (corresponding : Corresponding w w') (m : MachineId) (bound : Nat) (e : Expr)
    (env : Env) :
    Simulates w w'.quiet bound (Config.ofProgram m e env w').view [.final m]
      (Direct.eval bound e env w) := by
  have start := Paired.start corresponding.to_quiet
  have simulates := (simulated m w w'.quiet bound).1 e env [.final m] w w'.quiet start
  simpa only [Config.ofProgram, Config.start, Config.view, World.quiet_refill] using simulates

end Corresponding

theorem program_ends {w w' u u' : World} {m : MachineId} {e : Expr} {env : Env} {c : Call}
    {ending : Ending} (corresponding : Corresponding w w') (positive : w'.CanRefill m) (hooks : Hooks)
    (leads : Call.Leads (Config.ofProgram m e env w').view (c, u'))
    (ended : c.perform u' = .ended ending u') (pair : Paired w w'.quiet u u') :
    ∃ need d last, (Config.ofProgram m e env w').Reaches d ∧ d.view = (c, u') ∧
      d.step = .ended ending last ∧ ∀ bound, need ≤ bound →
        ∃ noted, runNoted bound hooks m e env w' = some noted ∧ Corresponding u noted ∧
          noted.timers = w'.timers ∧ (∀ n, noted.pending n = w'.pending n) ∧
          noted.events = u'.trace ++ ending.events hooks (w'.pending m) := by
  have ready := Config.ready_ofProgram (corresponding.owned m) positive e env
  obtain ⟨need, d, last, reaches, view, stepped, quiet, driven⟩ :=
    Config.ready_leads_ends _ _ ending ready leads ended
  refine ⟨need, d, last, reaches, view, stepped, ?_⟩
  intro bound enough
  obtain ⟨noted, ran, quietNoted⟩ := runNoted_of_drive hooks (driven bound enough)
  dsimp only at quiet
  have machines : last.quiet.machines = w'.quiet.machines := by rw [quiet, pair.machines]
  have trace : last.events = u'.trace := congrArg World.trace quiet
  rw [quiet, trace, World.pending_congr machines] at quietNoted
  refine ⟨noted, ran, .of_quiet ?_, ?_, ?_, congrArg World.trace quietNoted⟩
  · rw [quietNoted]
    obtain ⟨direct, store, stamps, clock, readings⟩ := pair.corresponding
    exact ⟨direct, store, stamps, clock, readings⟩
  · exact (congrArg World.timers quietNoted).trans pair.timers
  · intro n
    exact World.pending_congr ((congrArg World.machines quietNoted).trans pair.machines) n

theorem Failure.ending_cases (cause : Failure) :
    (cause = .halted → cause.ending = .halted) ∧
      (cause ≠ .halted → ∃ cause', cause.ending = .failed cause' ∧ cause'.kind = cause.kind ∧
        cause'.message = cause.message) := by
  by_cases halted : cause = .halted
  · subst halted
    exact ⟨fun _ => rfl, fun running => absurd rfl running⟩
  · have failed : cause.ending = .failed cause.inCps := by
      cases cause with
      | halted => exact absurd rfl halted
      | _ => rfl
    exact ⟨fun same => absurd same halted,
      fun _ => ⟨cause.inCps, failed, cause.kind_inCps, cause.message_inCps⟩⟩

-- What the direct evaluator returns the machine returns, whatever its budget: once, with the same lines
-- before it, and with nothing else to be seen.
theorem direct_value_carries_over {w w' : World} (corresponding : Corresponding w w') (m : MachineId)
    (positive : w'.CanRefill m) (hooks : Hooks) (depth : Nat) (e : Expr) (env : Env) (v : Value)
    (after : World) (evaluated : Direct.eval depth e env w = .done v after) :
    ∃ lines need, v.IsDirect ∧ after.trace = w.trace ++ Event.ofLines lines ∧
      ∀ bound, need ≤ bound →
        ∃ noted, runNoted bound hooks m e env w' = some noted ∧ Corresponding after noted ∧
          noted.timers = w'.timers ∧ (∀ n, noted.pending n = w'.pending n) ∧
          noted.events = w'.events ++ Event.ofLines lines ++
            (#[.result v.inCps] ++ idleEvents hooks (w'.pending m)) := by
  have simulates := corresponding.simulates m depth e env
  rw [evaluated] at simulates
  obtain ⟨direct, u', pair, leads⟩ := simulates
  obtain ⟨lines, printed, printed'⟩ := pair.printed
  obtain ⟨need, _, _, _, _, _, ran⟩ := program_ends corresponding positive hooks leads rfl pair
  refine ⟨lines, need, direct, printed, ?_⟩
  intro bound enough
  obtain ⟨noted, noting, same, timers, pending, events⟩ := ran bound enough
  rw [printed'] at events
  exact ⟨noted, noting, same, timers, pending, events⟩

def timedPrint : Expr :=
  .prog [.call (.var "time") [.lambda [] (.call (.var "print") [.str "hi"]) none], .var "print"]

theorem timed_print_carries_over :
    ∃ need, ∀ bound, need ≤ bound →
      ∃ noted, runNoted bound {} 0 timedPrint ⟨0, []⟩ (.rooted .cps #[⟨1, 1, 0, 0, .missing⟩]) =
          some noted ∧
        noted.events = #[.line .standard "hi", .line .standard "Time: 125.000ms",
          .result (.builtin ⟨"print", .cps, .print, 0⟩), .idle] := by
  have evaluated : ∃ after, Direct.eval 7 timedPrint ⟨0, []⟩ (.rooted .sync #[]) =
        .done (.builtin ⟨"print", .sync, .print, 0⟩) after ∧
      after.trace = #[.line .standard "hi", .line .standard "Time: 125.000ms"] := ⟨_, rfl, rfl⟩
  obtain ⟨after, evaluated, trace⟩ := evaluated
  obtain ⟨lines, need, _, printed, ran⟩ := direct_value_carries_over
    (.rooted #[] #[⟨1, 1, 0, 0, .missing⟩]) 0
    (World.canRefill_rooted ⟨1, 1, 0, 0, .missing⟩ (by decide)) {} 7 _ ⟨0, []⟩ _ after evaluated
  refine ⟨need, ?_⟩
  intro bound enough
  obtain ⟨noted, noting, _, _, _, events⟩ := ran bound enough
  have same : Event.ofLines lines =
      #[.line .standard "hi", .line .standard "Time: 125.000ms"] := by
    simpa [trace, World.rooted, World.root] using printed.symm
  refine ⟨noted, noting, ?_⟩
  rw [events, same]
  rfl

-- Where the direct evaluator fails the machine comes to the same call and ends there. What it has
-- printed by then the direct evaluator has printed, too; the timed calls that wait at that point report
-- only there.
theorem direct_failure_carries_over {w w' : World} (corresponding : Corresponding w w') (m : MachineId)
    (positive : w'.CanRefill m) (hooks : Hooks) (depth : Nat) (e : Expr) (env : Env) (cause : Failure)
    (after : World) (evaluated : Direct.eval depth e env w = .failed cause after)
    (supported : cause.kind ≠ .unsupported) :
    ∃ lines need d last ending, (Config.ofProgram m e env w').Reaches d ∧ d.step = .ended ending last ∧
      (cause = .halted → ending = .halted) ∧
      (cause ≠ .halted → ∃ cause', ending = .failed cause' ∧ cause'.kind = cause.kind ∧
        cause'.message = cause.message) ∧
      after.trace = w.trace ++ Event.ofLines
        (lines ++ reports d.world.store d.world.clock d.world.readings d.call.kont) ∧
      ∀ bound, need ≤ bound →
        ∃ noted, runNoted bound hooks m e env w' = some noted ∧
          noted.store = after.store.mapValues Value.inCps ∧
          noted.timers = w'.timers ∧ (∀ n, noted.pending n = w'.pending n) ∧
          noted.events = w'.events ++ Event.ofLines lines ++ ending.events hooks (w'.pending m) := by
  have simulates := corresponding.simulates m depth e env
  rw [evaluated] at simulates
  rcases simulates with unsupported | ⟨c, u, u', frames, leads, kont, failed, pair, unwound⟩
  · exact absurd unsupported supported
  obtain ⟨lines, printed, printed'⟩ := pair.printed
  obtain ⟨need, d, last, reaches, view, stepped, ran⟩ :=
    program_ends corresponding positive hooks leads failed pair
  obtain ⟨halts, fails⟩ := cause.ending_cases
  refine ⟨lines, need, d, last, cause.ending, reaches, stepped, halts, fails, ?_, ?_⟩
  · have waiting : d.call.kont = frames ++ [.final m] := (congrArg (·.1.kont) view).trans kont
    have whole : after = unwind d.call.kont u := by
      rw [waiting, unwind_append]
      exact unwound
    have store : d.world.store = u.store.mapValues Value.inCps :=
      (congrArg (·.2.store) view).trans pair.corresponding.store
    have clock : d.world.clock = u.clock := (congrArg (·.2.clock) view).trans pair.corresponding.clock
    have readings : d.world.readings = u.readings :=
      (congrArg (·.2.readings) view).trans pair.corresponding.readings
    rw [whole, unwind_trace, printed, store, clock, readings, reports_mapValues, Event.ofLines_append,
      Array.append_assoc]
  · intro bound enough
    obtain ⟨noted, noting, same, timers, pending, events⟩ := ran bound enough
    rw [printed'] at events
    refine ⟨noted, noting, ?_, timers, pending, events⟩
    rw [unwound, unwind_store]
    exact same.store

theorem failing_thunk_carries_over :
    ∃ (lines : _) (need : _) (d : Config), Event.ofLines
        (lines ++ reports d.world.store d.world.clock d.world.readings d.call.kont) =
          #[.line .standard "Time: 125.000ms"] ∧
      ∀ bound, need ≤ bound →
        ∃ noted cause, runNoted bound {} 0 (.call (.var "time") [.lambda [] (.var "x") none]) ⟨0, []⟩
            (.rooted .cps #[⟨1, 1, 0, 0, .missing⟩]) = some noted ∧
          noted.events = Event.ofLines lines ++ #[.raised cause] ∧
          cause.message = "Undefined variable x" := by
  have evaluated : ∃ after, Direct.eval 4 (.call (.var "time") [.lambda [] (.var "x") none]) ⟨0, []⟩
        (.rooted .sync #[]) = .failed (.undefinedVariable "x") after ∧
      after.trace = #[.line .standard "Time: 125.000ms"] := ⟨_, rfl, rfl⟩
  obtain ⟨after, evaluated, trace⟩ := evaluated
  obtain ⟨lines, need, d, _, ending, _, _, _, fails, printed, ran⟩ := direct_failure_carries_over
    (.rooted #[] #[⟨1, 1, 0, 0, .missing⟩]) 0
    (World.canRefill_rooted ⟨1, 1, 0, 0, .missing⟩ (by decide)) {} 4 _ ⟨0, []⟩ _ after evaluated (by decide)
  obtain ⟨cause, rfl, _, message⟩ := fails (by simp)
  refine ⟨lines, need, d, by simpa [trace, World.rooted, World.root] using printed.symm, ?_⟩
  intro bound enough
  obtain ⟨noted, noting, _, _, _, events⟩ := ran bound enough
  refine ⟨noted, cause, noting, ?_, message⟩
  simpa [World.events, World.rooted, World.root, Ending.events] using events

theorem World.get?_bindParams_nil (w : World) (c : Closure) (params : c.params = []) (env : Env)
    (name : String) :
    (w.bindParams c []).2.store.get? env name = w.store.get? env name ∧
      (w.bindParams c []).2.store.get? (w.bindParams c []).1 name = w.store.get? c.env name := by
  have unchanged : (w.bindParams c []).2.store.valueIn? name = w.store.valueIn? name := by
    funext i
    simp only [bindParams, params, bindArgs, Store.extend, Store.valueIn?_push]
    split
    · rename_i last
      subst last
      simp [Scope.ofBindings, Scope.get?, Store.valueIn?]
    · rfl
  have outside : w.store.valueIn? name w.store.scopes.size = none := by simp [Store.valueIn?]
  refine ⟨by simp only [Store.get?, unchanged], ?_⟩
  simp only [Store.get?, unchanged]
  simp [bindParams, Store.extend, Store.child, Env.chain, outside]

theorem self_call_unfinished (c : Closure) (params : c.params = []) (body : c.body = .call (.var "f") [])
    (bound : Nat) (env : Env) (w : World) (captured : w.store.get? c.env "f" = some (.closure c))
    (seen : w.store.get? env "f" = some (.closure c)) :
    Direct.eval bound c.body env w = .unfinished := by
  induction bound using Nat.strongRecOn generalizing env w with
  | ind bound ih =>
      match bound with
      | 0 => rfl
      | 1 =>
          rw [body]
          rfl
      | bound + 2 =>
          have found : Direct.eval (bound + 1) (.var "f") env w = .done (.closure c) w := by
            simp only [Direct.eval, Direct.read, seen]
          have called : Direct.eval (bound + 2) (.call (.var "f") []) env w =
              Direct.eval bound c.body (w.bindParams c []).1 (w.bindParams c []).2 := by
            rw [Direct.eval]
            simp only [bind, Direct.Eval.bind, found]
            rfl
          obtain ⟨kept, inner⟩ := w.get?_bindParams_nil c params c.env "f"
          rw [body, called]
          exact ih bound (by omega) _ _ (kept.trans captured) (inner.trans captured)

-- A run of the machine that ends bounds the depth of the direct evaluation. So a program without end
-- there runs without end here, whatever the budget.
theorem machine_end_bounds_depth {w w' : World} (corresponding : Corresponding w w') (m : MachineId)
    (e : Expr) (env : Env) :
    (∀ bound ending last, run bound m e env w' = some (ending, last) →
      ∃ outcome, outcome ≠ .unfinished ∧ ∀ depth, bound ≤ depth → Direct.eval depth e env w = outcome) ∧
    ((∀ depth, Direct.eval depth e env w = .unfinished) → ∀ bound, run bound m e env w' = none) := by
  have finished : ∀ bound ending last, run bound m e env w' = some (ending, last) →
      Direct.eval bound e env w ≠ .unfinished := by
    intro bound ending last driven unfinished
    have simulates := corresponding.simulates m bound e env
    rw [unfinished] at simulates
    have free := Config.flow_of_drive bound _ ending last driven
    cases free.symm.trans simulates
  refine ⟨?_, ?_⟩
  · intro bound ending last driven
    have outcome := finished bound ending last driven
    exact ⟨_, outcome, fun depth enough => Direct.eval_deeper bound depth e env w enough outcome⟩
  · intro endless bound
    cases driven : run bound m e env w' with
    | none => rfl
    | some r => exact absurd (endless bound) (finished bound r.1 r.2 driven)

theorem sleeper_ends_and_self_call_does_not :
    (∃ outcome, outcome ≠ .unfinished ∧ ∀ depth, 20 ≤ depth →
      Direct.eval depth (.call (.var "sleep") [.num 5]) ⟨0, []⟩ (.rooted .sync #[]) = outcome) ∧
    ∀ budget bound, run bound 0 (.call (.lambda [] (.call (.var "f") []) (some "f")) []) ⟨0, []⟩
      (.rooted .cps #[⟨budget, budget, 0, 0, .missing⟩]) = none := by
  refine ⟨?_, ?_⟩
  · have driven : ∃ last, run 20 0 (.call (.var "sleep") [.num 5]) ⟨0, []⟩
        (.rooted .cps #[⟨1, 1, 0, 0, .running⟩]) = some (.suspended, last) := ⟨_, rfl⟩
    obtain ⟨last, driven⟩ := driven
    exact (machine_end_bounds_depth (.rooted #[] _) 0 _ ⟨0, []⟩).1 20 .suspended last driven
  · intro budget bound
    refine (machine_end_bounds_depth (.rooted #[] _) 0 _ ⟨0, []⟩).2 ?_ bound
    intro depth
    match depth with
    | 0 => rfl
    | 1 => rfl
    | depth + 2 =>
        exact self_call_unfinished ⟨0, [], .call (.var "f") [], some "f", ⟨1, [0]⟩⟩ rfl rfl depth
          ⟨2, [1, 0]⟩ _ rfl rfl

end Trampoline

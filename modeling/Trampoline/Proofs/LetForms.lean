import Trampoline.Proofs.Dated
import Trampoline.Proofs.Schedule
import Trampoline.Proofs.TwinEvaluations
import Trampoline.Proofs.TwinProgress

set_option autoImplicit false

namespace Trampoline

namespace Direct

variable {m : MachineId} {pairs : Pairing} {w u : World}

abbrev Outcome.BothEnd (m : MachineId) (pairs : Pairing) : Outcome Value → Outcome Value → Prop :=
  Outcome.Twin m (Value.Twin m) False False pairs

def Finishes (e : Expr) (env : Env) (w : World) (o : Outcome Value) : Prop :=
  o ≠ .unfinished ∧ ∃ bound, eval bound e env w = o

theorem Outcome.Twin.bothEnd {early late : Prop} {o o' : Outcome Value}
    (twin : o.Twin m (Value.Twin m) early late pairs o') (first : early → o ≠ .unfinished)
    (second : late → o' ≠ .unfinished) (either : o ≠ .unfinished ∨ o' ≠ .unfinished) :
    o ≠ .unfinished ∧ o' ≠ .unfinished ∧ o.BothEnd m pairs o' := by
  cases twin with
  | done grows value world => exact ⟨by simp, by simp, .done grows value world⟩
  | failed grows cause world => exact ⟨by simp, by simp, .failed grows cause world⟩
  | unfinished => exact absurd rfl (either.elim id id)
  | early short => exact absurd rfl (first short)
  | late short => exact absurd rfl (second short)

-- The bound of the functions is the larger one where the `let` has an end, and the smaller one where they have.
theorem let_agree (twin : w.Twin m pairs u) (bs : List Binding) (body : Expr) (env : Env) :
    EndsMatch (Finishes (.letIn bs body) env w) (Finishes (body.applied bs) env u) (Outcome.BothEnd m pairs) := by
  constructor
  · rintro o ⟨finished, bound, rfl⟩
    cases bound with
    | zero => exact absurd rfl finished
    | succ bound =>
        have twins : Eval.Twin.Valued m True False pairs (eval (bound + 1) (.letIn bs body) env)
            (eval (bound + 2 * bs.length + 1) (body.applied bs) env) :=
          eval_applied_twin bs body bound _ (.inl ⟨trivial, Nat.le_refl _⟩) env pairs
        obtain ⟨_, finished', both⟩ :=
          (twins pairs (fun _ _ => id) w u twin).bothEnd (fun _ => finished) False.elim (.inl finished)
        exact ⟨_, ⟨finished', _, rfl⟩, both⟩
  · rintro o ⟨finished, bound, rfl⟩
    have twins : Eval.Twin.Valued m False True pairs (eval (bound + 1) (.letIn bs body) env)
        (eval bound (body.applied bs) env) :=
      eval_applied_twin bs body bound bound (.inr ⟨trivial, Nat.le_refl _⟩) env pairs
    obtain ⟨finished', _, both⟩ :=
      (twins pairs (fun _ _ => id) w u twin).bothEnd False.elim (fun _ => finished) (.inr finished)
    exact ⟨_, ⟨finished', _, rfl⟩, both⟩

end Direct

section Starved

variable {m : MachineId} {w : World}

theorem World.canSpend_starved (starved : ¬ w.CanRefill m) : (w.refill m).canSpend m = false := by
  simp only [CanRefill, Classical.not_forall] at starved
  obtain ⟨budget, found, none⟩ := starved
  rw [World.getElem?_budgets] at found
  obtain ⟨machine, here, rfl⟩ := Option.map_eq_some_iff.mp found
  have there : w.machines[m]? = some machine := here
  simp only [canSpend, refill, machine?, updateMachine, Array.getElem?_modify, there, if_pos, Option.map_some]
  exact decide_eq_false none

theorem Config.start_starved (starved : ¬ w.CanRefill m) (e : Expr) (env : Env) (k : Kont) (r : Ending × World) :
    ¬ (Config.start m (.evaluate m e env k) w).Ends r := by
  have endless (bound legs : Nat) (u : World) (starved : ¬ u.CanRefill m) (spent : u.canSpend m = false) :
      drive bound ⟨m, legs, .evaluate m e env k, u⟩ = none := by
    induction bound generalizing legs u with
    | zero => rfl
    | succ bound ih =>
        rw [drive, Config.step_blocked ⟨m, .evaluate, rfl, spent⟩]
        refine ih (legs + 1) (u.refill m) (fun positive => starved ?_) (World.canSpend_starved starved)
        exact World.canRefill_congr positive (World.sameCounts_refill u m).budgets.symm
  rintro ⟨bound, driven⟩
  refine absurd driven ?_
  rw [Config.start, endless bound 1 (w.refill m) (fun positive => starved ?_) (World.canSpend_starved starved)]
  · simp
  · exact World.canRefill_congr positive (World.sameCounts_refill w m).budgets.symm

end Starved

namespace Config

variable {m : MachineId} {pairs : Pairing} {w u : World}

theorem ends_leaps {c d : Config} (leaps : c.Leaps d) (r : Ending × World) : c.Ends r ↔ d.Ends r := by
  constructor
  · rintro ⟨bound, driven⟩
    obtain ⟨fewer, _, driven'⟩ := drive_leaps leaps driven
    exact ⟨fewer, driven'⟩
  · exact ends_of_reaches leaps.to_reflTransGen

theorem start_twin {c d : Call} (call : c.Twin m pairs d) (twin : w.Twin m pairs u) (positive : w.CanRefill m)
    (positive' : u.CanRefill m) : Config.Twin m pairs (start m c w) (start m d u) := by
  refine ⟨.inl call, twin.congr (w.aside_refill m) (u.aside_refill m), ?_, ?_⟩
  · exact World.canRefill_congr positive (World.sameCounts_refill w m).budgets
  · exact World.canRefill_congr positive' (World.sameCounts_refill u m).budgets

theorem let_agree (dated : w.Dated) (bs : List Binding) (body : Expr) (env : Env) (k : Kont)
    (frames : framesDated w.stamps k) :
    EndsMatch (start m (.evaluate m (.letIn bs body) env k) w).Ends
      (start m (.evaluate m (body.applied bs) env k) w).Ends (EndsTwin m (.same w.stamps)) := by
  by_cases positive : w.CanRefill m
  · have refilled := World.canRefill_congr positive (World.sameCounts_refill w m).budgets
    have opens : Leap m (.evaluate m (.letIn bs body) env k) w (.bindings m bs body env k) w :=
      .goes rfl fun _ => rfl
    obtain ⟨legs, v, leaps, same⟩ := opens 1 (w.refill m) refilled (w.aside_refill m)
    have twin : Config.Twin m (.same w.stamps) ⟨m, legs, .bindings m bs body env k, v⟩
        (start m (.evaluate m (body.applied bs) env k) w) :=
      ⟨.inr (.letting (framesDated.twin k frames)), (dated.twin m).congr same (w.aside_refill m),
        positive_reaches refilled leaps.to_reflTransGen, refilled⟩
    obtain ⟨forth, back⟩ := twin.agree
    constructor
    · intro r ends
      exact forth r ((ends_leaps leaps r).mp ends)
    · intro r' ends
      obtain ⟨r, ends', both⟩ := back r' ends
      exact ⟨r, (ends_leaps leaps r).mpr ends', both⟩
  · exact ⟨fun r ends => absurd ends (start_starved positive _ env k r),
      fun r ends => absurd ends (start_starved positive _ env k r)⟩

end Config

def WorldsTwin (m : MachineId) (pairs : Pairing) (w u : World) : Prop :=
  ∃ pairs', pairs.ExtendedBy pairs' ∧ w.Twin m pairs' u

section Notes

variable {m : MachineId} {pairs : Pairing} {w u : World} {e e' : Ending}

theorem related_at {α β : Type} {R : α → β → Prop} {as : List α} {bs : List β} (related : List.Forall₂ R as bs)
    (i : Nat) : Option.Rel R as[i]? bs[i]? ∧ List.Forall₂ R (as.eraseIdx i) (bs.eraseIdx i) := by
  induction related generalizing i with
  | nil => exact ⟨.none, .nil⟩
  | cons here rest ih =>
      cases i with
      | zero => exact ⟨.some here, rest⟩
      | succ i => exact ⟨(ih i).1, .cons here (ih i).2⟩

namespace World

def told (w : World) (hooks : Hooks) (m : MachineId) : Ending → World
  | .failed cause => if hooks.onError then w.note (.failed cause) else w.note (.raised cause)
  | ending => (w.noteEnding ending).noteIdle hooks m

theorem aside_noteRan (m : MachineId) (w : World) : (w.noteRan m).aside m = w.aside m := by
  unfold noteRan
  split
  · exact aside_note_hidden m w _ rfl
  · rfl

namespace Twin

theorem noteIdle (twin : w.Twin m pairs u) (hooks : Hooks) (owner : MachineId) :
    (w.noteIdle hooks owner).Twin m pairs (u.noteIdle hooks owner) := by
  simp only [World.noteIdle, twin.pending_eq]
  split
  · exact twin.noted rfl rfl .idle
  · exact twin

theorem noteEnding (twin : w.Twin m pairs u) (ending : e.Twin m pairs e') :
    (w.noteEnding e).Twin m pairs (u.noteEnding e') := by
  cases ending with
  | returned owner value => exact twin.noted rfl rfl (.result value)
  | _ => exact twin

theorem noteRun (twin : w.Twin m pairs u) (ending : e.Twin m pairs e') (hooks : Hooks) (owner : MachineId) :
    (w.noteRun hooks owner e).Twin m pairs (u.noteRun hooks owner e') := by
  have noted := (twin.noteEnding ending).noteIdle hooks owner
  cases ending with
  | failed cause => exact twin.noted rfl rfl (.raised cause)
  | _ => exact noted

theorem told (twin : w.Twin m pairs u) (ending : e.Twin m pairs e') (hooks : Hooks) (owner : MachineId) :
    (w.told hooks owner e).Twin m pairs (u.told hooks owner e') := by
  have noted := (twin.noteEnding ending).noteIdle hooks owner
  cases ending with
  | failed cause =>
      simp only [World.told]
      split
      · exact twin.noted rfl rfl (.failed cause)
      · exact twin.noted rfl rfl (.raised cause)
  | _ => exact noted

theorem taken (twin : w.Twin m pairs u) (i : Nat) :
    Option.Rel (fun here there => here.1.Twin m pairs there.1 ∧ here.2.Twin m pairs there.2)
      (w.takeTimer? i) (u.takeTimer? i) := by
  obtain ⟨found, others⟩ := related_at twin.timers i
  refine rel_map found fun t t' timer => ⟨timer, ?_⟩
  exact ⟨twin.stamps, twin.store, twin.clock, twin.readings, twin.machines, others, timer.due, twin.events⟩

end Twin

end World

end Notes

namespace Host

variable {m : MachineId} {pairs : Pairing} {w u : World}

theorem agree_noted {c d : Config} (agree : EndsMatch c.Ends d.Ends (EndsTwin m pairs)) (note : World → Ending → World)
    (noted : ∀ {pairs : Pairing} {w u : World} {e e' : Ending}, w.Twin m pairs u → e.Twin m pairs e' →
      (note w e).Twin m pairs (note u e')) :
    EndsMatch (fun after => ∃ bound, ((drive bound c).map fun r => note (r.2.watch bound c) r.1) = some after)
      (fun after => ∃ bound, ((drive bound d).map fun r => note (r.2.watch bound d) r.1) = some after)
      (WorldsTwin m pairs) := by
  have related (bound bound' : Nat) {r r' : Ending × World} (both : EndsTwin m pairs r r') :
      WorldsTwin m pairs (note (r.2.watch bound c) r.1) (note (r'.2.watch bound' d) r'.1) := by
    obtain ⟨pairs', grows, ending, world⟩ := both
    exact ⟨pairs', grows, noted (world.congr rfl rfl) ending⟩
  constructor
  · rintro after ⟨bound, kept⟩
    obtain ⟨r, driven, rfl⟩ := Option.map_eq_some_iff.mp kept
    obtain ⟨r', ⟨bound', driven'⟩, both⟩ := agree.1 r ⟨bound, driven⟩
    exact ⟨_, ⟨bound', Option.map_eq_some_iff.mpr ⟨r', driven', rfl⟩⟩, related bound bound' both⟩
  · rintro after ⟨bound', kept⟩
    obtain ⟨r', driven', rfl⟩ := Option.map_eq_some_iff.mp kept
    obtain ⟨r, ⟨bound, driven⟩, both⟩ := agree.2 r' ⟨bound', driven'⟩
    exact ⟨_, ⟨bound, Option.map_eq_some_iff.mpr ⟨r, driven, rfl⟩⟩, related bound bound' both⟩

variable (host : Host)

def Obeys (w : World) (command : Command) (after : World) : Prop := ∃ bound, host.obey bound w command = some after

theorem run_agree {e e' : Expr}
    (agree : EndsMatch (Config.ofProgram host.machine e host.env w).Ends (Config.ofProgram host.machine e' host.env u).Ends
      (EndsTwin host.machine pairs)) :
    EndsMatch (host.Obeys w (.run e)) (host.Obeys u (.run e')) (WorldsTwin host.machine pairs) :=
  agree_noted agree (fun w e => (w.noteRun host.hooks host.machine e).noteRan host.machine) fun twin ending =>
    (twin.noteRun ending host.hooks host.machine).congr (World.aside_noteRan _ _) (World.aside_noteRan _ _)

theorem obeys_fire {i : Nat} {t : Timer} (taken : u.takeTimer? i = some (t, w)) :
    host.Obeys u (.fire i) = fun after => ∃ bound, ((drive bound (.ofTimer t w)).map fun r =>
      (r.2.watch bound (.ofTimer t w)).told host.hooks t.machine r.1) = some after := by
  funext after
  simp only [Obeys, obey, taken, fireNoted, fire, Option.map_map]
  congr
  funext bound
  congr 2
  funext r
  obtain ⟨e, after⟩ := r
  cases e with
  | failed cause => cases caught : host.hooks.onError <;> simp [World.noteFired, World.told, caught]
  | _ => rfl

theorem fire_agree {t t' : Timer} (timer : t.Twin host.machine pairs t') (owned : t.OwnedBy host.machine)
    (twin : w.Twin host.machine pairs u) (ready : w.ReadyFor host.machine) (ready' : u.ReadyFor host.machine) :
    EndsMatch (Config.ofTimer t w).Ends (Config.ofTimer t' u).Ends (EndsTwin host.machine pairs) := by
  have counted := twin.updateMachine host.machine (fun machine => { machine with pending := machine.pending - 1 })
    fun _ _ => rfl
  have left := World.ready_updateMachine ready (fun machine => { machine with pending := machine.pending - 1 })
    fun _ => rfl
  have right := World.ready_updateMachine ready' (fun machine => { machine with pending := machine.pending - 1 })
    fun _ => rfl
  have start := Config.start_twin (.resume timer.kont timer.value) counted left.positive right.positive
  simp only [Config.ofTimer, timer.machine, owned.1]
  exact start.agree

theorem obey_agree (twin : w.Twin host.machine pairs u) (ready : w.ReadyFor host.machine)
    (ready' : u.ReadyFor host.machine) (command : Command) :
    EndsMatch (host.Obeys w command) (host.Obeys u command) (WorldsTwin host.machine pairs) := by
  cases command with
  | run e =>
      have final : FramesTwin host.machine pairs [.final host.machine] [.final host.machine] := .cons (.bare rfl) .nil
      have call := Call.Twin.evaluate host.machine e host.env final
      exact host.run_agree (Config.start_twin call twin ready.positive ready'.positive).agree
  | fire i =>
      have taken := twin.taken i
      generalize here : w.takeTimer? i = found at taken
      generalize there : u.takeTimer? i = found' at taken
      cases taken with
      | none =>
          have idle {v : World} (absent : v.takeTimer? i = none) (bound : Nat) :
              host.obey bound v (.fire i) = some v := by
            simp only [obey, absent]
          constructor
          · rintro after ⟨bound, obeyed⟩
            cases (idle here bound).symm.trans obeyed
            exact ⟨u, ⟨0, idle there 0⟩, pairs, fun _ _ => id, twin⟩
          · rintro after ⟨bound, obeyed⟩
            cases (idle there bound).symm.trans obeyed
            exact ⟨w, ⟨0, idle here 0⟩, pairs, fun _ _ => id, twin⟩
      | @some first second both =>
          obtain ⟨t, w'⟩ := first
          obtain ⟨t', u'⟩ := second
          obtain ⟨timer, world⟩ := both
          obtain ⟨owned, left⟩ := World.ready_takeTimer ready i t w' here
          obtain ⟨_, right⟩ := World.ready_takeTimer ready' i t' u' there
          have agree := host.fire_agree timer owned world left right
          have noted := agree_noted agree (fun w e => w.told host.hooks host.machine e) fun twin ending =>
            twin.told ending host.hooks host.machine
          rw [obeys_fire host here, obeys_fire host there, timer.machine, owned.1]
          exact noted

theorem cons_agree {command command' : Command} {commands : List Command} (ready : w.ReadyFor host.machine)
    (ready' : u.ReadyFor host.machine)
    (first : EndsMatch (host.Obeys w command) (host.Obeys u command') (WorldsTwin host.machine pairs))
    (later : ∀ {pairs : Pairing} {w u : World}, w.Twin host.machine pairs u → w.ReadyFor host.machine →
      u.ReadyFor host.machine →
      EndsMatch (host.Obeyed w commands) (host.Obeyed u commands) (WorldsTwin host.machine pairs)) :
    EndsMatch (host.Obeyed w (command :: commands)) (host.Obeyed u (command' :: commands))
      (WorldsTwin host.machine pairs) := by
  constructor
  · intro after obeyed
    cases obeyed with
    | next bound now rest =>
        obtain ⟨v, ⟨bound', now'⟩, pairs', grows, twin⟩ := first.1 _ ⟨bound, now⟩
        obtain ⟨after', rest', pairs'', grows', twin'⟩ :=
          (later twin (host.ready_obey command ready now) (host.ready_obey command' ready' now')).1 after rest
        exact ⟨after', .next bound' now' rest', pairs'', grows.trans grows', twin'⟩
  · intro after obeyed
    cases obeyed with
    | next bound now rest =>
        obtain ⟨v, ⟨bound', now'⟩, pairs', grows, twin⟩ := first.2 _ ⟨bound, now⟩
        obtain ⟨after', rest', pairs'', grows', twin'⟩ :=
          (later twin (host.ready_obey command ready now') (host.ready_obey command' ready' now)).2 after rest
        exact ⟨after', .next bound' now' rest', pairs'', grows.trans grows', twin'⟩

theorem obeyed_agree (twin : w.Twin host.machine pairs u) (ready : w.ReadyFor host.machine)
    (ready' : u.ReadyFor host.machine) (commands : List Command) :
    EndsMatch (host.Obeyed w commands) (host.Obeyed u commands) (WorldsTwin host.machine pairs) := by
  induction commands generalizing pairs w u with
  | nil =>
      constructor
      · rintro after ⟨⟩
        exact ⟨u, .done u, pairs, fun _ _ => id, twin⟩
      · rintro after ⟨⟩
        exact ⟨w, .done w, pairs, fun _ _ => id, twin⟩
  | cons command commands ih =>
      exact host.cons_agree ready ready' (host.obey_agree twin ready ready' command) ih

end Host

theorem World.dated_evaluated {bound : Nat} {e : Expr} {env : Env} {w after : World} (dated : w.Dated)
    (evaluated :
      (∃ v, Direct.eval bound e env w = .done v after) ∨ ∃ cause, Direct.eval bound e env w = .failed cause after) :
    after.Dated := by
  have twins := (Direct.twin_evaluations 0 bound bound).1 e env (.same w.stamps) _ (fun _ _ => id) w w (dated.twin 0)
  rcases evaluated with ⟨v, done⟩ | ⟨cause, failed⟩
  · rw [done] at twins
    cases twins with
    | done _ _ world => exact world.dated
  · rw [failed] at twins
    cases twins with
    | failed _ _ world => exact world.dated

theorem World.dated_obeyed {host : Host} {w after : World} {commands : List Command} (dated : w.Dated)
    (ready : w.ReadyFor host.machine) (obeyed : host.Obeyed w commands after) : after.Dated := by
  obtain ⟨_, _, _, _, twin⟩ := (host.obeyed_agree (dated.twin host.machine) ready ready commands).1 after obeyed
  exact twin.dated

-- Evaluating a `let` comes to the same as evaluating functions of one parameter, one for each binding from the first
-- to the last and applied to its initialiser, if it has one. For the direct evaluator, that is the same value or failure;
-- for a machine, the same end of the run, at any point of any program and with any budget; and for a machine that owns
-- all that waits, the same events in all that it is asked to do later. The worlds that are left have the same scopes and
-- events, and differ in nothing but stamps and the counters of the machine.
theorem let_is_applied_functions (m : MachineId) (bs : List Binding) (body : Expr) (env : Env) (w : World)
    (dated : w.Dated) :
    EndsMatch (Direct.Finishes (.letIn bs body) env w) (Direct.Finishes (body.applied bs) env w)
      (Direct.Outcome.BothEnd m (.same w.stamps)) ∧
    (∀ k, framesDated w.stamps k →
      EndsMatch (Config.start m (.evaluate m (.letIn bs body) env k) w).Ends
        (Config.start m (.evaluate m (body.applied bs) env k) w).Ends (EndsTwin m (.same w.stamps))) ∧
    (w.store.OwnedBy m → (∀ t ∈ w.timers, t.OwnedBy m) → ∀ hooks commands,
      EndsMatch (Host.Obeyed ⟨m, env, hooks⟩ w (.run (.letIn bs body) :: commands))
        (Host.Obeyed ⟨m, env, hooks⟩ w (.run (body.applied bs) :: commands)) (WorldsTwin m (.same w.stamps))) := by
  refine ⟨Direct.let_agree (dated.twin m) bs body env, Config.let_agree dated bs body env, ?_⟩
  intro store timers hooks commands
  have runs := Config.let_agree (m := m) dated bs body env [.final m] ⟨trivial, trivial⟩
  by_cases positive : w.CanRefill m
  · have ready : w.ReadyFor m := ⟨store, timers, positive⟩
    exact Host.cons_agree ⟨m, env, hooks⟩ ready ready (Host.run_agree ⟨m, env, hooks⟩ runs) fun twin ready ready' =>
      Host.obeyed_agree ⟨m, env, hooks⟩ twin ready ready' commands
  · have never (e : Expr) (after : World) : ¬ Host.Obeyed ⟨m, env, hooks⟩ w (.run e :: commands) after := by
      rintro (_ | ⟨bound, ran, _⟩)
      obtain ⟨r, driven, _⟩ := Option.map_eq_some_iff.mp ran
      exact Config.start_starved positive e env _ r ⟨bound, driven⟩
    exact ⟨fun after obeyed => absurd obeyed (never _ after), fun after obeyed => absurd obeyed (never _ after)⟩

def rebound : List Binding :=
  [.mk "x" (.call (.var "call/cc") [.lambda ["k"] (.prog [.assign (.var "saved") (.var "k"), .str "first"]) none]),
    .mk "y" .hole]

def reboundBody : Expr := .cond (.var "y") (.str "never") (.var "x")

theorem rebound_applied :
    ∃ w after, Host.Obeyed ⟨0, ⟨0, []⟩, {}⟩ (.rooted .cps #[⟨1, 1, 0, 0, .running⟩])
        [.run (.assign (.var "saved") (.bool false))] w ∧ w.Dated ∧
      Host.Obeyed ⟨0, ⟨0, []⟩, {}⟩ w
        [.run (.letIn rebound reboundBody), .run (.call (.var "saved") [.str "second"])] after ∧
      after.outcomes = [.ok (.bool false), .ok (.str "first"), .ok (.str "second")] ∧
      ∃ after', Host.Obeyed ⟨0, ⟨0, []⟩, {}⟩ w
          [.run (reboundBody.applied rebound), .run (.call (.var "saved") [.str "second"])] after' ∧
        WorldsTwin 0 (.same w.stamps) after after' := by
  have fresh := World.ready_rooted ⟨1, 1, 0, 0, .running⟩ (by decide)
  obtain ⟨w, ran, after, obeyed, outcomes⟩ : ∃ w, Host.obey ⟨0, ⟨0, []⟩, {}⟩ 20 (.rooted .cps #[⟨1, 1, 0, 0, .running⟩])
      (.run (.assign (.var "saved") (.bool false))) = some w ∧ ∃ after, Host.Obeyed ⟨0, ⟨0, []⟩, {}⟩ w
        [.run (.letIn rebound reboundBody), .run (.call (.var "saved") [.str "second"])] after ∧
      after.outcomes = [.ok (.bool false), .ok (.str "first"), .ok (.str "second")] :=
    ⟨_, rfl, _, .next 60 rfl (.next 60 rfl (.done _)), rfl⟩
  have ready := Host.ready_obey ⟨0, ⟨0, []⟩, {}⟩ _ fresh ran
  have before := Host.Obeyed.next 20 ran (.done w)
  have dated := World.dated_obeyed (World.dated_rooted .cps _) fresh before
  obtain ⟨_, _, agree⟩ := let_is_applied_functions 0 rebound reboundBody ⟨0, []⟩ w dated
  exact ⟨w, after, before, dated, obeyed, outcomes, (agree ready.store ready.timers {} _).1 after obeyed⟩

end Trampoline

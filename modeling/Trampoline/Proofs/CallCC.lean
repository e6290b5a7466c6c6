import Trampoline.Proofs.Awaiting
import Trampoline.Proofs.EscapeSimulation

set_option autoImplicit false

namespace Trampoline

theorem World.quiet_quiet (w : World) : w.quiet.quiet = w.quiet := by
  simp [quiet, events, Function.comp_def, Machine.quiet]

namespace Host

-- One timer at most is waiting; once none is, the world is as it should be.
inductive Promised (host : Host) (final : World → Prop) : World → Prop where
  | settled {w : World} : w.timers = [] → final w → Promised host final w
  | waiting {w : World} {t : Timer} : w.timers = [t] → (∃ bound u, host.obey bound w (.fire 0) = some u) →
      (∀ bound u, host.obey bound w (.fire 0) = some u → Promised host final u) → Promised host final w

variable {host : Host} {final : World → Prop} {w : World}

theorem Promised.fired (promised : host.Promised final w) :
    ∃ fires last, (∀ c ∈ fires, c = .fire 0) ∧ host.Obeyed w fires last ∧ last.timers = [] := by
  induction promised with
  | @settled w none _ => exact ⟨[], w, by simp, .done w, none⟩
  | waiting _ able _ ih =>
      obtain ⟨bound, u, obeyed⟩ := able
      obtain ⟨fires, last, only, rest, none⟩ := ih bound u obeyed
      exact ⟨.fire 0 :: fires, last, List.forall_mem_cons.mpr ⟨rfl, only⟩, .next bound obeyed rest, none⟩

theorem obey_fire_absent {bound i : Nat} {u : World} (few : w.timers.length ≤ i)
    (obeyed : host.obey bound w (.fire i) = some u) : u = w := by
  have absent : w.takeTimer? i = none := by simp [World.takeTimer?, few]
  simp only [obey, absent] at obeyed
  exact (Option.some.inj obeyed).symm

theorem Promised.kept {fires : List Command} {last : World} (promised : host.Promised final w)
    (only : ∀ c ∈ fires, ∃ i, c = .fire i) (obeyed : host.Obeyed w fires last) (none : last.timers = []) :
    final last := by
  induction obeyed with
  | done w =>
      cases promised with
      | settled _ reached => exact reached
      | waiting one _ _ =>
          rw [none] at one
          cases one
  | next bound first _ ih =>
      obtain ⟨⟨i, rfl⟩, rest⟩ := List.forall_mem_cons.mp only
      refine ih ?_ rest none
      cases promised with
      | settled empty reached =>
          rw [obey_fire_absent (by simp [empty]) first]
          exact .settled empty reached
      | waiting one able next =>
          cases i with
          | zero => exact next bound _ first
          | succ i =>
              rw [obey_fire_absent (by simp [one]) first]
              exact .waiting one able next

end Host

section Runs

variable {c d : Config} {m : MachineId}

theorem drive_of_reaches_drive {bound : Nat} {r : Ending × World} (reaches : c.Reaches d)
    (driven : drive bound d = some r) : ∃ bound', drive bound' c = some r := by
  obtain ⟨last, onward, ended⟩ := Config.reaches_of_drive bound d r.1 r.2 driven
  exact Config.drive_of_reaches (reaches.trans onward) ended

theorem Config.Alone.reaches (alone : c.Alone m) (reaches : c.Reaches d) : d.Alone m := by
  obtain ⟨ready, driver, timers⟩ := Config.ready_reaches c d alone.ready reaches
  have sameCounts := Config.sameCounts_reaches c d reaches
  exact ⟨ready, driver.trans alone.driver, timers.trans alone.untimed, (sameCounts.pending m).trans alone.counted,
    (sameCounts.loop? m).trans alone.running⟩

theorem Ending.events_suspended (hooks : Hooks) : Ending.suspended.events hooks 1 = #[] := by
  simp [events, idleEvents]

theorem World.Rests.congr {w u : World} {ending : Ending} (rests : w.Rests m ending)
    (same : u.quiet = w.quiet) (ready : u.ReadyFor m) : u.Rests m ending := by
  have machines : u.quiet.machines = w.quiet.machines := by rw [same]
  refine ⟨ready, (World.pending_congr machines m).trans rests.pending, ?_, ?_, rests.owner⟩
  · rw [World.timers_same same]
    exact rests.timers
  · rw [← World.quiet_loop?, same, World.quiet_loop?]
    exact rests.running

end Runs

def World.Returned (host : Host) (v : Value) (u w : World) : Prop :=
  w.quiet = { u with trace := u.trace ++ (Ending.returned host.machine v).events host.hooks 0 }

namespace World

variable {host : Host} {v : Value} {u w : World}

theorem Returned.outcomes (returned : Returned host v u w) : w.outcomes = u.outcomes ++ [.ok v] := by
  rw [← outcomes_quiet, returned]
  simp only [World.outcomes, Ending.events, idleEvents, Array.toList_append, List.filterMap_append]
  split <;> simp [Event.outcome?]

theorem Returned.lines (returned : Returned host v u w) : w.lines = u.lines := by
  rw [← lines_quiet, returned]
  simp only [World.lines, Ending.events, idleEvents, Array.toList_append, List.filterMap_append]
  split <;> simp [Event.line?]

theorem Returned.matched {konts : Nat → Kont} {after : World} (returned : Returned host v u w)
    (matched : Matched konts after u) : Matched konts after w := by
  have store : w.quiet.store = u.store := by rw [returned]
  have stamps : w.quiet.stamps = u.stamps := by rw [returned]
  have clock : w.quiet.clock = u.clock := by rw [returned]
  have readings : w.quiet.readings = u.readings := by rw [returned]
  exact ⟨matched.tagged, store.trans matched.store, stamps.trans matched.stamps, clock.trans matched.clock,
    readings.trans matched.readings⟩

theorem Returned.pending (returned : Returned host v u w) (m : MachineId) : w.pending m = u.pending m := by
  have machines : w.quiet.machines = u.machines := by rw [returned]
  rw [← quiet_pending]
  simp only [World.pending, machine?, machines]

end World

def Config.Promises (host : Host) (final : World → Prop) (c : Config) : Prop :=
  (∃ bound r, drive bound c = some r) ∧
    ∀ bound ending after, drive bound c = some (ending, after) → (∀ cause, ending ≠ .failed cause) ∧
      ∀ noted : World, noted.quiet = (after.noteRun host.hooks host.machine ending).quiet →
        noted.ReadyFor host.machine → host.Promised final noted

section Promises

variable {host : Host} {c : Config} {v : Value} {u : World}

theorem promises_final (alone : c.Alone host.machine) (call : c.call = .resume [.final host.machine] v)
    (world : c.world.quiet = u) : c.Promises host (World.Returned host v u) := by
  have ended : c.call.perform c.world.quiet = .ended (.returned host.machine v) u := by
    rw [call, world]
    rfl
  obtain ⟨d, after, reaches, _, stepped, quiet⟩ := Config.ready_ends c _ _ alone.ready ended
  obtain ⟨bound, driven⟩ := Config.drive_of_reaches reaches stepped
  refine ⟨⟨bound, _, driven⟩, ?_⟩
  intro bound' ending' after' driven'
  cases drive_unique _ _ _ _ _ driven driven'
  refine ⟨by simp, ?_⟩
  intro noted same ready
  have rests := alone.rests driven
  have pending : u.pending host.machine = 0 := by
    rw [← quiet, World.quiet_pending]
    exact rests.pending
  rw [World.quiet_noteRun, quiet, World.noteRun_trace, pending] at same
  refine .settled ?_ same
  have timers : noted.quiet.timers = u.timers := by rw [same]
  have empty : after.timers = [] := List.eq_nil_of_length_eq_zero rests.timers
  exact timers.trans (quiet ▸ empty)

theorem promises_made {final : World → Prop} {s : Call × World} (alone : c.Alone host.machine)
    (made : c.call.perform c.world.quiet = .call s.1 s.2)
    (rest : ∀ d : Config, d.Alone host.machine → d.view = s → d.Promises host final) :
    c.Promises host final := by
  obtain ⟨d, reaches, view⟩ := Config.leads_reaches c s alone.ready (.single made)
  obtain ⟨⟨bound, r, driven⟩, next⟩ := rest d (alone.reaches reaches) view
  obtain ⟨bound', driven'⟩ := drive_of_reaches_drive reaches driven
  refine ⟨⟨bound', r, driven'⟩, ?_⟩
  intro bound'' ending after driven''
  cases drive_unique _ _ _ _ _ driven' driven''
  exact next bound ending after driven

theorem noteFired_of_unfailed {ending : Ending} (unfailed : ∀ cause, ending ≠ .failed cause) (w : World)
    (hooks : Hooks) (m : MachineId) : w.noteFired hooks m ending = (none, w.noteRun hooks m ending) := by
  cases ending with
  | failed cause => exact absurd rfl (unfailed cause)
  | _ => rfl

theorem promised_of_timer {final : World → Prop} {w w' : World} {t : Timer} (ready : w.ReadyFor host.machine)
    (one : w.timers = [t]) (taken : w.takeTimer? 0 = some (t, w'))
    (promises : (Config.ofTimer t w').Promises host final) : host.Promised final w := by
  obtain ⟨⟨owner, _, _⟩, _⟩ := World.ready_takeTimer ready 0 t w' taken
  obtain ⟨⟨bound, ⟨ending, after⟩, driven⟩, next⟩ := promises
  obtain ⟨unfailed, settles⟩ := next bound ending after driven
  have obeys (bound : Nat) (driven : drive bound (.ofTimer t w') = some (ending, after)) :
      host.obey bound w (.fire 0) =
        some ((after.watch bound (.ofTimer t w')).noteRun host.hooks host.machine ending) := by
    simp only [Host.obey, taken, fireNoted, fire, driven, Option.map_some, owner,
      noteFired_of_unfailed unfailed]
  refine .waiting one ⟨bound, _, obeys bound driven⟩ ?_
  intro bound' u obeyed
  have kept := host.ready_obey _ ready obeyed
  have driven' : drive bound' (.ofTimer t w') = some (ending, after) := by
    cases found : drive bound' (.ofTimer t w') with
    | none => simp [Host.obey, taken, fireNoted, fire, found] at obeyed
    | some r => exact congrArg some (drive_unique _ _ _ _ _ driven found).symm
  cases obeyed.symm.trans (obeys bound' driven')
  refine settles _ ?_ kept
  rw [World.quiet_noteRun, World.quiet_watch, World.quiet_noteRun]

theorem promises_woken {final : World → Prop} {s : Call × World} {w w' : World} {t : Timer}
    (alone : c.Alone host.machine) (slept : c.call.perform c.world.quiet = .ended .suspended w)
    (taken : w.takeTimer? 0 = some (t, w')) (view : (Config.ofTimer t w').view = s)
    (rest : ∀ d : Config, d.Alone host.machine → d.view = s → d.Promises host final) :
    c.Promises host final := by
  obtain ⟨d, after, reaches, _, stepped, quiet⟩ := Config.ready_ends c _ _ alone.ready slept
  obtain ⟨bound, driven⟩ := Config.drive_of_reaches reaches stepped
  refine ⟨⟨bound, _, driven⟩, ?_⟩
  intro bound' ending' after' driven'
  cases drive_unique _ _ _ _ _ driven driven'
  refine ⟨by simp, ?_⟩
  intro noted same ready
  have rests := alone.rests driven
  have pending : after.quiet.pending host.machine = 1 := (World.quiet_pending _ _).trans rests.pending
  rw [World.quiet_noteRun, World.noteRun_trace, pending, Ending.events_suspended, Array.append_empty] at same
  have view' : w.quiet = noted.quiet := by rw [same, ← quiet, World.quiet_quiet]
  obtain ⟨noted', taken', same'⟩ := World.takeTimer_same view' taken
  have rests' := rests.congr same ready
  obtain ⟨_, alone'⟩ := rests'.resumed taken'
  have one : noted.timers = [t] := by
    obtain ⟨t', only⟩ := List.length_eq_one_iff.mp rests'.timers
    have found : noted.timers[0]? = some t := by
      obtain ⟨_, found, pair⟩ := Option.map_eq_some_iff.mp taken'
      cases pair
      exact found
    rw [only] at found ⊢
    cases found
    rfl
  refine promised_of_timer ready one taken' (rest _ alone' ?_)
  rw [← view]
  exact (Config.view_ofTimer t same').symm

theorem promises_of_moves {s : Call × World}
    (moves : Call.Moves s (.resume [.final host.machine] v, u)) :
    ∀ c : Config, c.Alone host.machine → c.view = s → c.Promises host (World.Returned host v u) := by
  induction moves using Relation.ReflTransGen.head_induction_on with
  | refl =>
      intro c alone view
      exact promises_final alone (congrArg Prod.fst view) (congrArg Prod.snd view)
  | head move _ ih =>
      intro c alone view
      subst view
      cases move with
      | made made => exact promises_made alone made ih
      | woken slept taken view => exact promises_woken alone slept taken view ih

end Promises

-- A continuation that is called only while its call is active: the run of the machine, with all its timers fired
-- in whatever order, comes to the value of the evaluator with escapes and to no other.
theorem escapes_carry_over {konts : Nat → Kont} {w w' : World} (matched : Matched konts w w') (host : Host)
    (ready : w'.ReadyFor host.machine) (untimed : w'.timers = []) (idle : w'.pending host.machine = 0)
    (running : w'.loop? host.machine = some .running) (depth : Nat) (e : Expr) (v : Value) (after : World)
    (evaluated : Escaping.eval depth e host.env w = .done v after) :
    ∃ konts' lines, (∀ tag < w.stamps, konts' tag = konts tag) ∧
      after.trace = w.trace ++ Event.ofLines lines ∧
      (∃ fires final, (∀ c ∈ fires, c = .fire 0) ∧ host.Obeyed w' (.run e :: fires) final ∧
        final.timers = []) ∧
      ∀ fires final, (∀ c ∈ fires, ∃ i, c = .fire i) → host.Obeyed w' (.run e :: fires) final →
        final.timers = [] →
          final.outcomes = w'.outcomes ++ [.ok (v.inMachine konts')] ∧ final.lines = w'.lines ++ lines ∧
          Matched konts' after final ∧ final.pending host.machine = 0 := by
  have started : Along w w'.quiet konts w w'.quiet :=
    .start ⟨matched.tagged, matched.store, matched.stamps, matched.clock, matched.readings⟩
  have traces := (traced host.machine w w'.quiet ((World.quiet_loop? _ _).trans running) untimed depth).1 e
    host.env [.final host.machine] konts w w'.quiet started
  rw [evaluated] at traces
  obtain ⟨konts', u, agree, _, _, along, moves⟩ := traces
  obtain ⟨lines, printed, printed'⟩ := along.printed
  have alone : (Config.ofProgram host.machine e host.env w').Alone host.machine := by
    have sameCounts := World.sameCounts_refill w' host.machine
    exact ⟨Config.ready_command ready e host.env, rfl, untimed, (sameCounts.pending _).trans idle,
      (sameCounts.loop? _).trans running⟩
  have view : (Config.ofProgram host.machine e host.env w').view =
      (.evaluate host.machine e host.env [.final host.machine], w'.quiet) := by
    simp only [Config.view, Config.ofProgram, Config.start, World.quiet_refill]
  obtain ⟨⟨bound, ⟨ending, left⟩, driven⟩, next⟩ := promises_of_moves moves _ alone view
  -- every way to run the program leaves a world of which its value is promised
  have promised : ∀ bound noted, host.obey bound w' (.run e) = some noted →
      host.Promised (World.Returned host (v.inMachine konts') u) noted := by
    intro bound noted obeyed
    obtain ⟨⟨ending, left⟩, driven, rfl⟩ := Option.map_eq_some_iff.mp obeyed
    refine (next bound ending left driven).2 _ ?_ (host.ready_obey _ ready obeyed)
    rw [World.quiet_noteRan, World.quiet_noteRun, World.quiet_watch, World.quiet_noteRun]
  refine ⟨konts', lines, agree, printed, ?_, ?_⟩
  · have obeyed : ∃ noted, host.obey bound w' (.run e) = some noted := by
      simp only [Host.obey, runNoted, run, driven, Option.map_some, Option.some.injEq, exists_eq']
    obtain ⟨noted, obeyed⟩ := obeyed
    obtain ⟨fires, final, only, rest, none⟩ := (promised bound noted obeyed).fired
    exact ⟨fires, final, only, .next bound obeyed rest, none⟩
  · intro fires final only obeyed none
    cases obeyed with
    | next bound first rest =>
        have returned := (promised bound _ first).kept only rest none
        refine ⟨?_, ?_, returned.matched along.matched, ?_⟩
        · rw [returned.outcomes, along.outcomes, World.outcomes_quiet]
        · rw [returned.lines, printed', World.lines_quiet]
        · rw [returned.pending, World.pending_congr along.machines, World.quiet_pending]
          exact idle

def sleeperThatEscapes : Expr :=
  .call (.var "call/cc") [.lambda ["k"] (.prog
    [.call (.var "sleep") [.num 5],
     .call (.var "time") [.lambda [] (.call (.var "k") [.str "out"]) none],
     .call (.var "print") [.str "never"]]) none]

theorem sleeperThatEscapes_returns :
    ∃ fires final, Host.Obeyed ⟨0, ⟨0, []⟩, {}⟩ (.rooted .cps #[⟨1, 1, 0, 0, .running⟩])
        (.run sleeperThatEscapes :: fires) final ∧
      final.outcomes = [.ok (.str "out")] ∧ final.lines = [] := by
  have evaluated : ∃ after, Escaping.eval 10 sleeperThatEscapes ⟨0, []⟩ (.rooted .sync #[]) =
      .done (.str "out") after ∧ after.trace = #[] := ⟨_, rfl, rfl⟩
  obtain ⟨after, evaluated, silent⟩ := evaluated
  obtain ⟨konts, lines, _, printed, ⟨fires, final, only, obeyed, none⟩, settled⟩ :=
    escapes_carry_over (.rooted (fun _ => []) #[] #[⟨1, 1, 0, 0, .running⟩]) ⟨0, ⟨0, []⟩, {}⟩
      (World.ready_rooted ⟨1, 1, 0, 0, .running⟩ (by decide)) rfl rfl rfl 10 sleeperThatEscapes (.str "out") after
      evaluated
  obtain ⟨outcomes, told, _, _⟩ := settled fires final (fun c member => ⟨0, only c member⟩) obeyed none
  have nothing : lines = [] := by
    simpa [silent, World.rooted, World.root, Event.ofLines] using printed
  refine ⟨fires, final, obeyed, outcomes, ?_⟩
  rw [told, nothing]
  rfl

end Trampoline

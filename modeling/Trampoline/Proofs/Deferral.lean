import Trampoline.Proofs.Sleepless

set_option autoImplicit false

namespace Trampoline

namespace World

theorem core_noteIdle (w : World) (hooks : Hooks) (m : MachineId) : (w.noteIdle hooks m).core = w.core := by
  unfold noteIdle
  split
  · exact core_note w _ rfl
  · rfl

theorem core_noteRun (w : World) (hooks : Hooks) (m : MachineId) (e : Ending) :
    (w.noteRun hooks m e).core = w.core := by
  cases e with
  | failed cause => exact core_note w _ rfl
  | returned owner v => exact (core_noteIdle _ hooks m).trans (core_note w _ rfl)
  | suspended => exact core_noteIdle w hooks m
  | halted => exact core_noteIdle w hooks m

theorem core_noteRan (w : World) (m : MachineId) : (w.noteRan m).core = w.core := by
  rw [← core_quiet, quiet_noteRan, core_quiet]

theorem core_noteFired (w : World) (hooks : Hooks) (m : MachineId) (e : Ending) :
    (noteLeft (w.noteFired hooks m e)).core = w.core := by
  cases e with
  | failed cause =>
      by_cases hook : hooks.onError = true
      · simp only [noteFired, if_pos hook, noteLeft]
        exact core_note w _ rfl
      · simp only [noteFired, if_neg hook, noteLeft]
        exact core_note w _ rfl
  | returned owner v => exact core_noteRun w hooks m (.returned owner v)
  | suspended => exact core_noteRun w hooks m .suspended
  | halted => exact core_noteRun w hooks m .halted

end World

namespace Host

variable (host : Host)

structure Recorded (v : World) (e : Ending) (u : World) : Prop extends v.Noted e u where
  core : u.core = v.core
  ready : u.ReadyFor host.machine

variable {host} {bound : Nat} {w v u : World} {c : Config} {ending : Ending} {command : Command}

theorem obey_of_drive (started : host.start? w command = some c) (driven : drive bound c = some (ending, v)) :
    ∃ u, host.obey bound w command = some u := by
  cases command with
  | run e =>
      cases started
      simp only [obey, runNoted, run, driven, Option.map_some, Option.some.injEq, exists_eq']
  | fire i =>
      obtain ⟨⟨t, w'⟩, taken, rfl⟩ := Option.map_eq_some_iff.mp started
      simp only [obey, taken, fireNoted, fire, driven, Option.map_some, Option.some.injEq, exists_eq']

theorem recorded_obey (ready : w.ReadyFor host.machine) (started : host.start? w command = some c)
    (driven : drive bound c = some (ending, v)) (obeyed : host.obey bound w command = some u) :
    host.Recorded v ending u := by
  refine ⟨host.noted_obey started driven obeyed, ?_, host.ready_obey command ready obeyed⟩
  cases command with
  | run e =>
      cases started
      simp only [obey, runNoted, run, driven, Option.map_some, Option.some.injEq] at obeyed
      rw [← obeyed, World.core_noteRan, World.core_noteRun]
      rfl
  | fire i =>
      obtain ⟨⟨t, w'⟩, taken, rfl⟩ := Option.map_eq_some_iff.mp started
      simp only [obey, taken, fireNoted, fire, driven, Option.map_some, Option.some.injEq] at obeyed
      rw [← obeyed]
      exact World.core_noteFired (v.watch bound (.ofTimer t w')) host.hooks t.machine ending

theorem Recorded.rests (recorded : host.Recorded v ending u) (rests : v.Rests host.machine ending) :
    u.Rests host.machine ending := by
  refine ⟨recorded.ready, ?_, ?_, ?_, rests.owner⟩
  · rw [recorded.toNoted.pending]
    exact rests.pending
  · rw [recorded.timers]
    exact rests.timers
  · rw [recorded.toNoted.loop?]
    exact rests.running

end Host

section Timers

variable {w w' : World} {t : Timer} {i : Nat}

theorem World.core_ofTimer (taken : w.takeTimer? i = some (t, w')) :
    (Config.ofTimer t w').world.core = w.core := by
  obtain ⟨_, _, same⟩ := Option.map_eq_some_iff.mp taken
  cases same
  rfl

theorem World.outcomes_ofTimer (taken : w.takeTimer? i = some (t, w')) :
    (Config.ofTimer t w').world.outcomes = w.outcomes := by
  obtain ⟨_, _, same⟩ := Option.map_eq_some_iff.mp taken
  cases same
  rfl

theorem World.takeTimer_only {only : Timer} (one : w.timers = [only]) (taken : w.takeTimer? i = some (t, w')) :
    only = t := by
  obtain ⟨_, found, same⟩ := Option.map_eq_some_iff.mp taken
  cases same
  rw [one] at found
  exact (List.mem_singleton.mp (List.mem_of_getElem? found)).symm

end Timers

section Awake

variable {m : MachineId} {c : Config} {bound : Nat} {ending : Ending} {v : World} {r : Ending × World}

theorem Call.leads_flowAwake {s t : Call × World} (leads : Call.Leads s t) {n : Nat}
    (ended : t.1.flowAwake n t.2.core = some r) : ∃ n', s.1.flowAwake n' s.2.core = some r := by
  induction leads using Relation.ReflTransGen.head_induction_on with
  | refl => exact ⟨n, ended⟩
  | @head before after made _ ih =>
      obtain ⟨n', later⟩ := ih
      have awake : before.1.performAwake before.2.core = .call after.1 after.2.core := by
        rw [performAwake_core, performAwake_of_call made, made]
        rfl
      exact ⟨n' + 1, (flowAwake_call awake n').trans later⟩

theorem Config.reaches_flowAwake {d : Config} (reaches : c.Reaches d) {n : Nat}
    (ended : d.call.flowAwake n d.world.core = some r) : ∃ n', c.call.flowAwake n' c.world.core = some r := by
  rw [← World.core_quiet] at ended
  obtain ⟨n', before⟩ := Call.leads_flowAwake (reaches_leads c d reaches) ended
  exact ⟨n', World.core_quiet c.world ▸ before⟩

theorem Config.Alone.asleep {owner : MachineId} {milliseconds : Float} {k : Kont} (alone : c.Alone m)
    (sleeps : c.call.Sleeps owner milliseconds k) :
    ∃ u due, c.call.perform c.world.quiet = .ended .suspended u ∧ u.timers = [⟨m, due, k, .no⟩] ∧
      u.core = c.world.core := by
  have mine : owner = m := (sleeps.owned alone.ready.call).1.trans alone.driver
  subst mine
  have none : c.world.quiet.timers = [] := alone.untimed
  obtain ⟨u, t, after, _, armed, taken, _⟩ := World.arm_woken ((World.quiet_loop? _ _).trans alone.running) none
    milliseconds k .no
  obtain ⟨_, _, armed', _, timers⟩ := World.arm_ended c.world.quiet owner milliseconds k .no
  cases armed.symm.trans armed'
  have core : u.core = c.world.core := (World.core_arm armed).trans (World.core_quiet c.world)
  rcases timers with same | ⟨due, one⟩
  · have empty : u.timers = [] := same.trans none
    simp [World.takeTimer?, empty] at taken
  · rw [none, List.nil_append] at one
    exact ⟨u, due, (sleeps.perform _).trans armed, one, core⟩

theorem Config.performAwake_view (awake : ∀ u, c.call.performAwake u = c.call.perform u) :
    c.call.performAwake c.world.core = (c.call.perform c.world.quiet).core := by
  rw [← World.core_quiet, Call.performAwake_core, awake]

theorem Config.Alone.awake (alone : c.Alone m) (driven : drive bound c = some (ending, v)) :
    (ending ≠ .suspended ∧ ∃ n, c.call.flowAwake n c.world.core = some (ending, v.core)) ∨
      ending = .suspended ∧ ∃ t, v.timers = [t] ∧ ∀ n r,
        (Call.resume t.kont t.value).flowAwake n v.core = some r →
          ∃ n', c.call.flowAwake n' c.world.core = some r := by
  obtain ⟨d, reaches, ended⟩ := reaches_of_drive bound c ending v driven
  have free := step_ended_quiet d ending v ended
  rcases d.call.sleeps_or_awake with ⟨owner, milliseconds, k, sleeps⟩ | awake
  · obtain ⟨u, due, slept, one, core⟩ := (alone.reaches reaches).asleep sleeps
    cases free.symm.trans slept
    refine .inr ⟨rfl, _, one, ?_⟩
    intro n r later
    rw [← World.core_quiet, core] at later
    exact reaches_flowAwake reaches ((Call.flowAwake_call (sleeps.awake _) n).trans later)
  · have seen := performAwake_view awake
    rw [free, Next.core, World.core_quiet] at seen
    have ends : d.call.flowAwake 1 d.world.core = some (ending, v.core) := by
      simp only [Call.flowAwake, seen]
    exact .inl ⟨Call.performAwake_ends seen, reaches_flowAwake reaches ends⟩

end Awake

structure Ending.Concludes (endings : List Ending) (last : Ending) : Prop where
  awake : last ≠ .suspended
  asleep : ∃ front, endings = front ++ [last] ∧ ∀ x ∈ front, x = .suspended

theorem Ending.Concludes.resumed {endings : List Ending} {last : Ending} (rest : Concludes endings last) :
    Concludes (.suspended :: endings) last := by
  obtain ⟨front, rfl, asleep⟩ := rest.asleep
  exact ⟨rest.awake, .suspended :: front, rfl, by simpa using asleep⟩

section Runs

variable {host : Host} {c : Config} {ending : Ending}

theorem awake_of_history {bound : Nat} {v u final : World} {fires : List Command}
    {log : List (Command × Ending)} (alone : c.Alone host.machine) (driven : drive bound c = some (ending, v))
    (recorded : host.Recorded v ending u) (history : host.History u fires log final)
    (only : ∀ command ∈ fires, ∃ i, command = .fire i) (none : final.timers = []) :
    ∃ n last, c.call.flowAwake n c.world.core = some (last, final.core) ∧
      Ending.Concludes (ending :: log.map Prod.snd) last ∧
        final.outcomes = c.world.outcomes ++ last.outcome?.toList ∧ final.Rests host.machine last := by
  induction history generalizing c bound ending v with
  | done u =>
      have rests := recorded.rests (alone.rests driven)
      have outcomes := (Config.left_drive bound c ending v alone.ready driven).outcomes
      rcases alone.awake driven with ⟨awake, n, ended⟩ | ⟨rfl, _⟩
      · refine ⟨n, ending, recorded.core ▸ ended, ⟨awake, [], rfl, by simp⟩, ?_, rests⟩
        rw [recorded.outcomes, outcomes]
      · have timers := rests.timers
        rw [none] at timers
        cases timers
  | idle _ _ ih =>
      exact ih alone driven recorded (List.forall_mem_cons.mp only).2 none
  | @executed u v' u' final d ending' command fires log bound' started driven' obeyed _ ih =>
      obtain ⟨i, rfl⟩ := only _ List.mem_cons_self
      obtain ⟨⟨t, w⟩, taken, rfl⟩ := Option.map_eq_some_iff.mp started
      have rests := recorded.rests (alone.rests driven)
      obtain ⟨rfl, alone'⟩ := rests.resumed taken
      obtain ⟨n, last, ended, concludes, outcomes, rest⟩ := ih alone' driven'
        (Host.recorded_obey recorded.ready started driven' obeyed) (List.forall_mem_cons.mp only).2 none
      rcases alone.awake driven with ⟨awake, _⟩ | ⟨_, t', one, resumes⟩
      · exact absurd rfl awake
      · cases World.takeTimer_only (recorded.timers.trans one) taken
        rw [World.core_ofTimer taken, recorded.core] at ended
        obtain ⟨n', before⟩ := resumes n _ ended
        refine ⟨n', last, before, concludes.resumed, ?_, rest⟩
        rw [outcomes, World.outcomes_ofTimer taken, recorded.outcomes,
          (Config.left_drive bound c .suspended v alone.ready driven).outcomes]
        simp [Ending.outcome?]

def Config.Finishes (host : Host) (c : Config) : Prop :=
  ∃ bound ending v, drive bound c = some (ending, v) ∧ ∀ u, host.Recorded v ending u →
    ∃ fires log final, (∀ command ∈ fires, ∃ i, command = .fire i) ∧ host.History u fires log final ∧
      final.timers = []

theorem Config.Finishes.history {w : World} {command : Command} (finishes : c.Finishes host)
    (ready : w.ReadyFor host.machine) (started : host.start? w command = some c) :
    ∃ fires log final, (∀ command ∈ fires, ∃ i, command = .fire i) ∧
      host.History w (command :: fires) log final ∧ final.timers = [] := by
  obtain ⟨bound, ending, v, driven, rest⟩ := finishes
  obtain ⟨u, obeyed⟩ := Host.obey_of_drive started driven
  obtain ⟨fires, log, final, only, history, none⟩ := rest u (Host.recorded_obey ready started driven obeyed)
  exact ⟨fires, _, final, only, .executed bound started driven obeyed history, none⟩

theorem finishes_ended {q : World} (alone : c.Alone host.machine)
    (ended : c.call.perform c.world.quiet = .ended ending q) (awake : ending ≠ .suspended) :
    c.Finishes host := by
  obtain ⟨d, v, reaches, _, stepped, _⟩ := Config.ready_ends c _ _ alone.ready ended
  obtain ⟨bound, driven⟩ := Config.drive_of_reaches reaches stepped
  refine ⟨bound, ending, v, driven, ?_⟩
  intro u recorded
  have timers := (recorded.rests (alone.rests driven)).timers
  have none : ending.armed = 0 := by
    cases ending with
    | suspended => exact absurd rfl awake
    | _ => rfl
  exact ⟨[], [], u, by simp, .done u, List.eq_nil_of_length_eq_zero (timers.trans none)⟩

theorem finishes_reaches {d : Config} (reaches : c.Reaches d) (later : d.Finishes host) : c.Finishes host := by
  obtain ⟨bound, ending, v, driven, rest⟩ := later
  obtain ⟨bound', driven'⟩ := drive_of_reaches_drive reaches driven
  exact ⟨bound', ending, v, driven', rest⟩

theorem finishes_asleep {owner : MachineId} {milliseconds : Float} {k : Kont} (alone : c.Alone host.machine)
    (sleeps : c.call.Sleeps owner milliseconds k)
    (later : ∀ d : Config, d.Alone host.machine → d.call = .resume k .no → d.world.core = c.world.core →
      d.Finishes host) : c.Finishes host := by
  obtain ⟨q, due, slept, one, core⟩ := alone.asleep sleeps
  obtain ⟨d, v, reaches, _, stepped, quiet⟩ := Config.ready_ends c _ _ alone.ready slept
  obtain ⟨bound, driven⟩ := Config.drive_of_reaches reaches stepped
  refine ⟨bound, .suspended, v, driven, ?_⟩
  intro u recorded
  let t : Timer := ⟨host.machine, due, k, .no⟩
  have timers : u.timers = [t] := by
    rw [recorded.timers, ← one, ← quiet]
    rfl
  have taken : u.takeTimer? 0 = some (t, { u with timers := [], now := due }) := by
    simp [World.takeTimer?, timers, t]
  have started : host.start? u (.fire 0) = some (.ofTimer t { u with timers := [], now := due }) := by
    simp only [Host.start?, taken, Option.map_some]
  have same : v.core = c.world.core := by rw [← core, ← quiet, World.core_quiet]
  have resumed := ((recorded.rests (alone.rests driven)).resumed taken).2
  have finishes := later _ resumed rfl ((World.core_ofTimer taken).trans (recorded.core.trans same))
  obtain ⟨fires, log, final, only, history, none⟩ := finishes.history recorded.ready started
  exact ⟨.fire 0 :: fires, log, final, by simpa using only, history, none⟩

-- The induction is on the calls of the run that does not wait; each of them is made by the machine as well, or is
-- the one at which it goes to sleep.
theorem finishes_of_awake (host : Host) {r : Ending × World} (n : Nat) (c : Config) (alone : c.Alone host.machine)
    (ended : c.call.flowAwake n c.world.core = some r) : c.Finishes host := by
  induction n generalizing c with
  | zero => cases ended
  | succ n ih =>
      rcases c.call.sleeps_or_awake with ⟨owner, milliseconds, k, sleeps⟩ | awake
      · rw [Call.flowAwake_call (sleeps.awake _) n] at ended
        refine finishes_asleep alone sleeps ?_
        intro d alone' call core
        exact ih d alone' (by rw [call, core]; exact ended)
      · have seen := Config.performAwake_view awake
        cases result : c.call.perform c.world.quiet with
        | call call' q =>
            obtain ⟨d, reaches, view⟩ := Config.leads_reaches c (call', q) alone.ready (.single result)
            cases view
            rw [result, Next.core, World.core_quiet] at seen
            rw [Call.flowAwake_call seen] at ended
            exact finishes_reaches reaches (ih d (alone.reaches reaches) ended)
        | ended e q =>
            rw [result] at seen
            exact finishes_ended alone result (Call.performAwake_ends seen)

theorem Config.alone_ofProgram {w : World} {m : MachineId} (ready : w.ReadyFor m) (untimed : w.timers = [])
    (idle : w.pending m = 0) (running : w.loop? m = some .running) (e : Expr) (env : Env) :
    (ofProgram m e env w).Alone m := by
  have sameCounts := World.sameCounts_refill w m
  exact ⟨ready_command ready e env, rfl, untimed, (sameCounts.pending m).trans idle, (sameCounts.loop? m).trans running⟩

end Runs

-- A run with all its timers fired comes to an end exactly if the run that does not wait does. Both come to the same
-- result, halt or failure, with the same lines printed and the same variables.
theorem sleep_only_defers (host : Host) (w : World) (ready : w.ReadyFor host.machine) (untimed : w.timers = [])
    (idle : w.pending host.machine = 0) (running : w.loop? host.machine = some .running) (e : Expr) :
    ((∃ fires log final, (∀ command ∈ fires, ∃ i, command = .fire i) ∧
        host.History w (.run e :: fires) log final ∧ final.timers = []) ↔
      ∃ bound r, driveAwake bound (.ofProgram host.machine e host.env w) = some r) ∧
    ∀ fires log final, (∀ command ∈ fires, ∃ i, command = .fire i) →
      host.History w (.run e :: fires) log final → final.timers = [] → ∀ bound ending after,
        driveAwake bound (.ofProgram host.machine e host.env w) = some (ending, after) →
          Ending.Concludes (log.map Prod.snd) ending ∧
          final.outcomes = w.outcomes ++ ending.outcome?.toList ∧ final.lines = after.lines ∧
          final.store = after.store ∧ final.stamps = after.stamps ∧ final.readings = after.readings ∧
          final.pending host.machine = 0 := by
  let c := Config.ofProgram host.machine e host.env w
  have alone : c.Alone host.machine := Config.alone_ofProgram ready untimed idle running e host.env
  have started : host.start? w (.run e) = some c := rfl
  -- what the executions come to, from the end of the first one on
  have settles : ∀ fires log final, (∀ command ∈ fires, ∃ i, command = .fire i) →
      host.History w (.run e :: fires) log final → final.timers = [] →
        ∃ n last, c.call.flowAwake n c.world.core = some (last, final.core) ∧
          Ending.Concludes (log.map Prod.snd) last ∧
          final.outcomes = w.outcomes ++ last.outcome?.toList ∧ final.Rests host.machine last := by
    intro fires log final only history none
    cases history with
    | idle absent _ => cases absent
    | executed bound here driven obeyed rest =>
        cases here
        exact awake_of_history alone driven (Host.recorded_obey ready started driven obeyed) rest only none
  refine ⟨⟨?_, ?_⟩, ?_⟩
  · rintro ⟨fires, log, final, only, history, none⟩
    obtain ⟨n, last, ended, _⟩ := settles fires log final only history none
    obtain ⟨bound, after, driven, _⟩ := Config.driveAwake_of_flowAwake n c last final.core alone.ready ended
    exact ⟨bound, _, driven⟩
  · rintro ⟨bound, ⟨ending, after⟩, driven⟩
    have ended := Config.flowAwake_of_driveAwake bound c ending after driven
    exact (finishes_of_awake host bound c alone ended).history ready started
  · intro fires log final only history none bound ending after driven
    obtain ⟨n, last, ended, concludes, outcomes, rests⟩ := settles fires log final only history none
    have free := Config.flowAwake_of_driveAwake bound c ending after driven
    obtain ⟨sameEnding, core⟩ : last = ending ∧ final.core = after.core :=
      Prod.mk.inj (Call.flowAwake_unique ended free)
    subst sameEnding
    refine ⟨concludes, outcomes, ?_, ?_, ?_, ?_, ?_⟩
    · rw [← World.lines_core, core, World.lines_core]
    · rw [← World.core_store, core, World.core_store]
    · rw [← World.core_stamps, core, World.core_stamps]
    · rw [← World.core_readings, core, World.core_readings]
    · have pending := rests.pending
      cases last with
      | suspended => exact absurd rfl concludes.awake
      | _ => exact pending

def sleeperThatReenters : Expr :=
  .call (.lambda ["k"] (.prog
      [.call (.var "sleep") [.num 5],
       .call (.var "print") [.str "awake"],
       .cond (.var "k") (.call (.var "k") [.bool false]) (.var "nowhere")]) none)
    [.call (.var "call/cc") [.lambda ["c"] (.var "c") none]]

theorem sleeperThatReenters_fails :
    ∃ fires log final, Host.History ⟨0, ⟨0, []⟩, {}⟩ (.rooted .cps #[⟨1, 1, 0, 0, .running⟩])
        (.run sleeperThatReenters :: fires) log final ∧
      Ending.Concludes (log.map Prod.snd) (.failed (.undefinedVariable "nowhere")) ∧
      final.outcomes = [.error (.undefinedVariable "nowhere")] ∧ final.lines.map Prod.snd = ["awake", "awake"] := by
  have driven : ∃ after, driveAwake 200 (.ofProgram 0 sleeperThatReenters ⟨0, []⟩
      (.rooted .cps #[⟨1, 1, 0, 0, .running⟩])) = some (.failed (.undefinedVariable "nowhere"), after) ∧
        after.lines.map Prod.snd = ["awake", "awake"] := by
    refine ⟨_, rfl, ?_⟩
    rfl
  obtain ⟨after, driven, lines⟩ := driven
  obtain ⟨both, agree⟩ := sleep_only_defers ⟨0, ⟨0, []⟩, {}⟩ (.rooted .cps #[⟨1, 1, 0, 0, .running⟩])
    (World.ready_rooted ⟨1, 1, 0, 0, .running⟩ (by decide)) rfl rfl rfl sleeperThatReenters
  obtain ⟨fires, log, final, only, history, none⟩ := both.mpr ⟨200, _, driven⟩
  obtain ⟨concludes, outcomes, same, _⟩ := agree fires log final only history none 200 _ after driven
  exact ⟨fires, log, final, history, concludes, outcomes, same ▸ lines⟩

end Trampoline

import Trampoline.Proofs.Flow

set_option autoImplicit false

namespace Trampoline

inductive Command where
  | run (e : Expr)
  | fire (i : Nat)

structure Host where
  machine : MachineId
  env : Env
  hooks : Hooks

def World.takeTimer? (w : World) (i : Nat) : Option (Timer × World) :=
  (w.timers[i]?).map fun t => (t, { w with timers := w.timers.eraseIdx i, now := t.due })

namespace Host

def obey (host : Host) (bound : Nat) (w : World) : Command → Option World
  | .run e => runNoted bound host.hooks host.machine e host.env w
  | .fire i =>
      match w.takeTimer? i with
      | none => some w
      | some (t, w) =>
          (fireNoted bound host.hooks t w).map fun (left, after) =>
            match left with
            | none => after
            | some cause => after.note (.raised cause)

def start? (host : Host) (w : World) : Command → Option Config
  | .run e => some (.ofProgram host.machine e host.env w)
  | .fire i => (w.takeTimer? i).map fun (t, w) => .ofTimer t w

inductive Obeyed (host : Host) : World → List Command → World → Prop where
  | done (w : World) : Obeyed host w [] w
  | next {w u after : World} {command : Command} {commands : List Command} (bound : Nat) :
      host.obey bound w command = some u → Obeyed host u commands after →
        Obeyed host w (command :: commands) after

-- The worlds that a schedule passes, also where one of its commands never comes to an end.
inductive GoesThrough (host : Host) : World → List Command → World → Prop where
  | now (w : World) (commands : List Command) : GoesThrough host w commands w
  | during {w : World} {command : Command} {commands : List Command} {c d : Config} :
      host.start? w command = some c → c.Reaches d → GoesThrough host w (command :: commands) d.world
  | later {w u v : World} {command : Command} {commands : List Command} (bound : Nat) :
      host.obey bound w command = some u → GoesThrough host u commands v →
        GoesThrough host w (command :: commands) v

end Host

structure World.ReadyFor (w : World) (m : MachineId) : Prop where
  store : w.store.OwnedBy m
  timers : ∀ t ∈ w.timers, t.OwnedBy m
  positive : w.CanRefill m

namespace World

theorem owned_rooted (machines : Array Machine) (m : MachineId) :
    (rooted .cps machines).store.OwnedBy m :=
  root_holds Store.empty_holds .cps none fun _ _ => trivial

theorem ready_rooted (machine : Machine) (positive : 0 < machine.budget) :
    (rooted .cps #[machine]).ReadyFor 0 :=
  ⟨owned_rooted _ 0, by simp [rooted, root], canRefill_rooted machine positive⟩

variable {m : MachineId} {w : World}

theorem ready_congr (ready : w.ReadyFor m) (u : World) (store : u.store = w.store)
    (timers : u.timers = w.timers) (budgets : u.budgets = w.budgets) : u.ReadyFor m :=
  ⟨store ▸ ready.store, timers ▸ ready.timers, canRefill_congr ready.positive budgets⟩

theorem ready_note (ready : w.ReadyFor m) (event : Event) : (w.note event).ReadyFor m :=
  ready_congr ready _ rfl rfl rfl

theorem ready_watch (ready : w.ReadyFor m) (bound : Nat) (c : Config) :
    (w.watch bound c).ReadyFor m :=
  ready_congr ready _ rfl rfl rfl

theorem ready_noteRan (ready : w.ReadyFor m) (owner : MachineId) : (w.noteRan owner).ReadyFor m := by
  unfold noteRan
  split
  · exact ready_note ready _
  · exact ready

theorem ready_updateMachine (ready : w.ReadyFor m) (f : Machine → Machine)
    (kept : ∀ machine, (f machine).budget = machine.budget) : (w.updateMachine m f).ReadyFor m :=
  ready_congr ready _ rfl rfl (budgets_updateMachine w m f kept)

theorem ready_takeTimer (ready : w.ReadyFor m) (i : Nat) (t : Timer) (u : World)
    (taken : w.takeTimer? i = some (t, u)) : t.OwnedBy m ∧ u.ReadyFor m := by
  obtain ⟨t', found, same⟩ := Option.map_eq_some_iff.mp taken
  cases same
  refine ⟨ready.timers t (List.mem_of_getElem? found), ready.store, ?_, ready.positive⟩
  intro other member
  exact ready.timers other (List.mem_of_mem_eraseIdx member)

end World

namespace Config

theorem ready_command {m : MachineId} {w : World} (ready : w.ReadyFor m) (e : Expr) (env : Env) :
    (ofProgram m e env w).Ready :=
  ready_ofProgram ready.store ready.positive e env

theorem ready_ofTimer {m : MachineId} {w : World} {t : Timer} (ready : w.ReadyFor m)
    (owned : t.OwnedBy m) : (ofTimer t w).Ready := by
  obtain ⟨rfl, frames, value⟩ := owned
  have counted : (w.updateMachine t.machine
      fun machine => { machine with pending := machine.pending - 1 }).ReadyFor t.machine :=
    World.ready_updateMachine ready _ fun _ => rfl
  exact ready_start counted.store counted.positive (.resume t.kont t.value) ⟨frames, value⟩

theorem ready_driven {bound : Nat} {m : MachineId} {c : Config} {e : Ending} {after : World}
    (ready : c.Ready) (driver : c.driver = m) (timers : ∀ t ∈ c.world.timers, t.OwnedBy m)
    (driven : drive bound c = some (e, after)) : after.ReadyFor m := by
  obtain ⟨store, positive, new, all, armed⟩ := ready_drive bound c e after ready driven
  rw [driver] at store positive armed
  refine ⟨store, ?_, positive⟩
  rw [all]
  exact List.forall_mem_append.mpr ⟨timers, armed⟩

theorem view_start (m : MachineId) (c : Call) {w u : World} (same : w.quiet = u.quiet) :
    (start m c w).view = (start m c u).view := by
  simp only [start, view, World.quiet_refill, same]

theorem view_ofTimer (t : Timer) {w u : World} (same : w.quiet = u.quiet) :
    (ofTimer t w).view = (ofTimer t u).view := by
  have counted (v : World) := World.quiet_updateMachine v t.machine
    (fun machine => { machine with pending := machine.pending - 1 })
    (fun machine => { machine with pending := machine.pending - 1 }) fun _ => rfl
  exact view_start t.machine _ (by rw [counted, counted, same])

end Config

theorem World.timers_same {w u : World} (same : w.quiet = u.quiet) : w.timers = u.timers := by
  have timers : w.quiet.timers = u.quiet.timers := by rw [same]
  exact timers

theorem World.takeTimer_same {w u w' : World} {i : Nat} {t : Timer} (same : w.quiet = u.quiet)
    (taken : w.takeTimer? i = some (t, w')) :
    ∃ u', u.takeTimer? i = some (t, u') ∧ w'.quiet = u'.quiet := by
  have timers := timers_same same
  obtain ⟨t', found, made⟩ := Option.map_eq_some_iff.mp taken
  cases made
  refine ⟨{ u with timers := u.timers.eraseIdx i, now := t.due }, ?_, ?_⟩
  · simp only [takeTimer?, ← timers, found, Option.map_some]
  · rw [timers]
    exact congrArg
      (fun v : World => { v with timers := u.timers.eraseIdx i, now := t.due }) same

theorem World.takeTimer_none {w u : World} {i : Nat} (same : w.quiet = u.quiet)
    (absent : w.takeTimer? i = none) : u.takeTimer? i = none := by
  have missing : w.timers[i]? = none := Option.map_eq_none_iff.mp absent
  rw [timers_same same] at missing
  simp only [takeTimer?, missing, Option.map_none]

namespace World

variable {m : MachineId} {w : World}

theorem ready_noteRun (ready : w.ReadyFor m) (hooks : Hooks) (e : Ending) :
    (w.noteRun hooks m e).ReadyFor m := by
  rw [noteRun_trace]
  exact ready_congr ready _ rfl rfl rfl

theorem ready_noteFired (ready : w.ReadyFor m) (hooks : Hooks) (e : Ending) :
    (w.noteFired hooks m e).2.ReadyFor m := by
  cases e with
  | failed cause =>
      simp only [noteFired]
      split
      · exact ready_note ready _
      · exact ready
  | returned owner v => exact ready_noteRun ready hooks (.returned owner v)
  | suspended => exact ready_noteRun ready hooks .suspended
  | halted => exact ready_noteRun ready hooks .halted

end World

theorem ready_runNoted {bound : Nat} {hooks : Hooks} {m : MachineId} {e : Expr} {env : Env}
    {w after : World} (ready : w.ReadyFor m) (ran : runNoted bound hooks m e env w = some after) :
    after.ReadyFor m := by
  obtain ⟨⟨ending, u⟩, driven, rfl⟩ := Option.map_eq_some_iff.mp ran
  have left : u.ReadyFor m :=
    Config.ready_driven (Config.ready_command ready e env) rfl ready.timers driven
  exact World.ready_noteRan (World.ready_noteRun (World.ready_watch left bound _) hooks ending) m

theorem runNoted_same {bound : Nat} {hooks : Hooks} {m : MachineId} {e : Expr} {env : Env}
    {w u after : World} (ready : u.ReadyFor m) (same : w.quiet = u.quiet)
    (ran : runNoted bound hooks m e env w = some after) :
    ∃ bound' after', runNoted bound' hooks m e env u = some after' ∧ after'.quiet = after.quiet := by
  obtain ⟨⟨ending, v⟩, driven, rfl⟩ := Option.map_eq_some_iff.mp ran
  obtain ⟨bound', v', driven', quiet⟩ := Config.same_view_drive bound _ (.ofProgram m e env u) ending v
    (Config.ready_command ready e env) (Config.view_start m _ same) driven
  refine ⟨bound', _, Option.map_eq_some_iff.mpr ⟨(ending, v'), driven', rfl⟩, ?_⟩
  simp only [World.quiet_noteRan, World.quiet_noteRun, World.quiet_watch, quiet]

theorem ready_fireNoted {bound : Nat} {hooks : Hooks} {m : MachineId} {t : Timer} {w after : World}
    {left : Option Failure} (ready : w.ReadyFor m) (owned : t.OwnedBy m)
    (fired : fireNoted bound hooks t w = some (left, after)) : after.ReadyFor m := by
  obtain ⟨⟨ending, u⟩, driven, noted⟩ := Option.map_eq_some_iff.mp fired
  have left : u.ReadyFor m :=
    Config.ready_driven (Config.ready_ofTimer ready owned) owned.1 ready.timers driven
  obtain ⟨rfl, _, _⟩ := owned
  have kept := World.ready_noteFired (World.ready_watch left bound (.ofTimer t w)) hooks ending
  dsimp only at noted
  rwa [noted] at kept

theorem fireNoted_same {bound : Nat} {hooks : Hooks} {m : MachineId} {t : Timer}
    {w u after : World} {left : Option Failure} (ready : u.ReadyFor m) (owned : t.OwnedBy m)
    (same : w.quiet = u.quiet) (fired : fireNoted bound hooks t w = some (left, after)) :
    ∃ bound' after', fireNoted bound' hooks t u = some (left, after') ∧ after'.quiet = after.quiet := by
  obtain ⟨⟨ending, v⟩, driven, noted⟩ := Option.map_eq_some_iff.mp fired
  obtain ⟨bound', v', driven', quiet⟩ := Config.same_view_drive bound _ (.ofTimer t u) ending v
    (Config.ready_ofTimer ready owned) (Config.view_ofTimer t same) driven
  dsimp only at noted
  have view := World.quiet_noteFired (v.watch bound (.ofTimer t w)) hooks t.machine ending
  have view' := World.quiet_noteFired (v'.watch bound' (.ofTimer t u)) hooks t.machine ending
  rw [World.quiet_watch, quiet, ← World.quiet_watch v bound (.ofTimer t w), view, noted] at view'
  injection view' with sameLeft sameWorld
  refine ⟨bound', ((v'.watch bound' (.ofTimer t u)).noteFired hooks t.machine ending).2, ?_,
    sameWorld.symm⟩
  exact Option.map_eq_some_iff.mpr ⟨(ending, v'), driven', Prod.ext sameLeft.symm rfl⟩

namespace Host

variable (host : Host)

theorem ready_obey {bound : Nat} {w after : World} (command : Command)
    (ready : w.ReadyFor host.machine) (obeyed : host.obey bound w command = some after) :
    after.ReadyFor host.machine := by
  cases command with
  | run e => exact ready_runNoted ready obeyed
  | fire i =>
      simp only [obey] at obeyed
      split at obeyed
      · cases obeyed
        exact ready
      · rename_i t u taken
        obtain ⟨owned, ready⟩ := World.ready_takeTimer ready i t u taken
        obtain ⟨⟨left, v⟩, fired, rfl⟩ := Option.map_eq_some_iff.mp obeyed
        have kept := ready_fireNoted ready owned fired
        cases left with
        | none => exact kept
        | some cause => exact World.ready_note kept _

theorem obey_same {bound : Nat} {w u after : World} (command : Command)
    (ready : u.ReadyFor host.machine) (same : w.quiet = u.quiet)
    (obeyed : host.obey bound w command = some after) :
    ∃ bound' after', host.obey bound' u command = some after' ∧ after'.quiet = after.quiet := by
  cases command with
  | run e => exact runNoted_same ready same obeyed
  | fire i =>
      simp only [obey] at obeyed
      split at obeyed
      · rename_i absent
        cases obeyed
        exact ⟨0, u, by simp only [obey, World.takeTimer_none same absent], same.symm⟩
      · rename_i t w' taken
        obtain ⟨u', taken', same'⟩ := World.takeTimer_same same taken
        obtain ⟨owned, ready'⟩ := World.ready_takeTimer ready i t u' taken'
        obtain ⟨⟨left, v⟩, fired, rfl⟩ := Option.map_eq_some_iff.mp obeyed
        obtain ⟨bound', v', fired', quiet⟩ := fireNoted_same ready' owned same' fired
        cases left with
        | none =>
            refine ⟨bound', v', ?_, quiet⟩
            simp only [obey, taken', fired', Option.map_some]
        | some cause =>
            refine ⟨bound', v'.note (.raised cause), ?_, ?_⟩
            · simp only [obey, taken', fired', Option.map_some]
            · rw [World.quiet_note_visible _ _ rfl, World.quiet_note_visible _ _ rfl, quiet]

theorem obey_unique {bound bound' : Nat} {w after after' : World} (command : Command)
    (obeyed : host.obey bound w command = some after)
    (obeyed' : host.obey bound' w command = some after') : after'.quiet = after.quiet := by
  cases command with
  | run e =>
      obtain ⟨⟨ending, v⟩, driven, rfl⟩ := Option.map_eq_some_iff.mp obeyed
      obtain ⟨⟨ending', v'⟩, driven', rfl⟩ := Option.map_eq_some_iff.mp obeyed'
      cases drive_unique bound bound' _ _ _ driven driven'
      simp only [World.quiet_noteRan, World.quiet_noteRun, World.quiet_watch]
  | fire i =>
      simp only [obey] at obeyed obeyed'
      cases taken : w.takeTimer? i with
      | none =>
          rw [taken] at obeyed obeyed'
          cases obeyed
          cases obeyed'
          rfl
      | some found =>
          obtain ⟨t, u⟩ := found
          rw [taken] at obeyed obeyed'
          obtain ⟨r, fired, rfl⟩ := Option.map_eq_some_iff.mp obeyed
          obtain ⟨r', fired', rfl⟩ := Option.map_eq_some_iff.mp obeyed'
          obtain ⟨⟨ending, v⟩, driven, rfl⟩ := Option.map_eq_some_iff.mp fired
          obtain ⟨⟨ending', v'⟩, driven', rfl⟩ := Option.map_eq_some_iff.mp fired'
          cases drive_unique bound bound' _ _ _ driven driven'
          have view := World.quiet_noteFired (v.watch bound (.ofTimer t u)) host.hooks t.machine ending
          have view' := World.quiet_noteFired (v.watch bound' (.ofTimer t u)) host.hooks t.machine ending
          rw [World.quiet_watch] at view view'
          injection view.symm.trans view' with sameLeft sameWorld
          dsimp only
          rw [← sameLeft]
          split
          · exact sameWorld.symm
          · rw [World.quiet_note_visible _ _ rfl, World.quiet_note_visible _ _ rfl, sameWorld]

theorem start_same {w u : World} {c : Config} (command : Command) (ready : u.ReadyFor host.machine)
    (same : w.quiet = u.quiet) (started : host.start? w command = some c) :
    ∃ d, host.start? u command = some d ∧ d.Ready ∧ c.view = d.view := by
  cases command with
  | run e =>
      cases started
      exact ⟨_, rfl, Config.ready_command ready e host.env, Config.view_start host.machine _ same⟩
  | fire i =>
      obtain ⟨⟨t, w'⟩, taken, rfl⟩ := Option.map_eq_some_iff.mp started
      obtain ⟨u', taken', same'⟩ := World.takeTimer_same same taken
      obtain ⟨owned, ready'⟩ := World.ready_takeTimer ready i t u' taken'
      exact ⟨.ofTimer t u', by simp only [start?, taken', Option.map_some],
        Config.ready_ofTimer ready' owned, Config.view_ofTimer t same'⟩

theorem obeyed_same {w u after : World} {commands : List Command}
    (ready : u.ReadyFor host.machine) (same : w.quiet = u.quiet)
    (obeyed : host.Obeyed w commands after) :
    ∃ after', host.Obeyed u commands after' ∧ after'.quiet = after.quiet := by
  induction obeyed generalizing u with
  | done w => exact ⟨u, .done u, same.symm⟩
  | next bound first _ ih =>
      obtain ⟨bound', u', first', quiet⟩ := host.obey_same _ ready same first
      obtain ⟨after', rest', last⟩ := ih (host.ready_obey _ ready first') quiet.symm
      exact ⟨after', .next bound' first' rest', last⟩

theorem obeyed_unique {w u after after' : World} {commands : List Command}
    (ready : u.ReadyFor host.machine) (same : w.quiet = u.quiet)
    (obeyed : host.Obeyed w commands after) (obeyed' : host.Obeyed u commands after') :
    after'.quiet = after.quiet := by
  induction obeyed generalizing u with
  | done w =>
      cases obeyed'
      exact same.symm
  | next bound first _ ih =>
      cases obeyed' with
      | next bound' first' rest' =>
          obtain ⟨_, u', matching, quiet⟩ := host.obey_same _ ready same first
          have agreed := host.obey_unique _ matching first'
          exact ih (host.ready_obey _ ready first') (agreed.trans quiet).symm rest'

theorem goesThrough_same {w u v : World} {commands : List Command}
    (ready : u.ReadyFor host.machine) (same : w.quiet = u.quiet) (passes : host.GoesThrough w commands v) :
    ∃ v', host.GoesThrough u commands v' ∧ v'.quiet = v.quiet := by
  induction passes generalizing u with
  | now w commands => exact ⟨u, .now u commands, same.symm⟩
  | during started reaches =>
      obtain ⟨d, started', ready', view⟩ := host.start_same _ ready same started
      obtain ⟨d', reaches', view'⟩ := Config.same_view_reaches _ d _ ready' view reaches
      exact ⟨d'.world, .during started' reaches', congrArg Prod.snd view'⟩
  | later bound first _ ih =>
      obtain ⟨bound', u', first', quiet⟩ := host.obey_same _ ready same first
      obtain ⟨v', rest', last⟩ := ih (host.ready_obey _ ready first') quiet.symm
      exact ⟨v', .later bound' first' rest', last⟩

-- Two worlds that agree in all but budgets, remaining steps and bounces, a schedule for one machine:
-- the schedule comes to an end in both or in neither, and what it leaves and what it passes on the way
-- are the same but for the counters of the machine.
theorem budget_never_shows (host : Host) (commands : List Command) (w u : World)
    (ready : w.ReadyFor host.machine) (ready' : u.ReadyFor host.machine) (same : w.quiet = u.quiet) :
    ((∃ after, host.Obeyed w commands after) ↔ ∃ after, host.Obeyed u commands after) ∧
      (∀ after after', host.Obeyed w commands after → host.Obeyed u commands after' →
        after'.events = after.events ∧ after'.store = after.store ∧
          (∀ m, after'.pending m = after.pending m) ∧ after'.quiet = after.quiet) ∧
      ∀ view, (∃ v, host.GoesThrough w commands v ∧ v.quiet = view) ↔
        ∃ v, host.GoesThrough u commands v ∧ v.quiet = view := by
  refine ⟨⟨?_, ?_⟩, ?_, ?_⟩
  · rintro ⟨after, obeyed⟩
    obtain ⟨after', obeyed', _⟩ := host.obeyed_same ready' same obeyed
    exact ⟨after', obeyed'⟩
  · rintro ⟨after, obeyed⟩
    obtain ⟨after', obeyed', _⟩ := host.obeyed_same ready same.symm obeyed
    exact ⟨after', obeyed'⟩
  · intro after after' obeyed obeyed'
    have quiet := host.obeyed_unique ready' same obeyed obeyed'
    have events : after'.quiet.trace = after.quiet.trace := by rw [quiet]
    have store : after'.quiet.store = after.quiet.store := by rw [quiet]
    refine ⟨events, store, ?_, quiet⟩
    intro m
    rw [← World.quiet_pending after', quiet, World.quiet_pending]
  · intro view
    constructor
    · rintro ⟨v, passes, rfl⟩
      exact host.goesThrough_same ready' same passes
    · rintro ⟨v, passes, rfl⟩
      exact host.goesThrough_same ready same.symm passes

def sleeperThenLine : List Command :=
  [.run (.prog [.call (.var "print") [.str "a"], .call (.var "sleep") [.num 5],
    .call (.var "print") [.str "b"]]), .run (.call (.var "print") [.str "c"]), .fire 0]

theorem budget_one_as_seven :
    ∃ after after',
      Obeyed ⟨0, ⟨0, []⟩, {}⟩ (.rooted .cps #[⟨1, 1, 0, 0, .running⟩]) sleeperThenLine after ∧
      Obeyed ⟨0, ⟨0, []⟩, {}⟩ (.rooted .cps #[⟨7, 3, 9, 0, .running⟩]) sleeperThenLine after' ∧
      after'.events = after.events ∧ after'.store = after.store := by
  obtain ⟨both, same, _⟩ := budget_never_shows ⟨0, ⟨0, []⟩, {}⟩ sleeperThenLine
    (.rooted .cps #[⟨1, 1, 0, 0, .running⟩]) (.rooted .cps #[⟨7, 3, 9, 0, .running⟩])
    (World.ready_rooted _ (by decide)) (World.ready_rooted _ (by decide))
    (by simp [World.quiet, World.events, World.rooted, World.root, Machine.quiet])
  obtain ⟨after, obeyed⟩ : ∃ after, Obeyed ⟨0, ⟨0, []⟩, {}⟩
      (.rooted .cps #[⟨1, 1, 0, 0, .running⟩]) sleeperThenLine after :=
    ⟨_, .next 60 rfl (.next 60 rfl (.next 60 rfl (.done _)))⟩
  obtain ⟨after', obeyed'⟩ := both.mp ⟨after, obeyed⟩
  obtain ⟨events, store, _⟩ := same after after' obeyed obeyed'
  exact ⟨after, after', obeyed, obeyed', events, store⟩

end Host

end Trampoline

import Trampoline.Proofs.Executions

set_option autoImplicit false

namespace Trampoline

namespace Ending

def results : Ending → Nat
  | .returned .. => 1
  | _ => 0

def failures : Ending → Nat
  | .failed _ => 1
  | _ => 0

def halts : Ending → Nat
  | .halted => 1
  | _ => 0

theorem one_way (e : Ending) : e.armed + e.results + e.failures + e.halts = 1 := by
  cases e <;> rfl

theorem outcomes_events (hooks : Hooks) (pending : Int) (e : Ending) :
    (e.events hooks pending).toList.filterMap Event.outcome? = e.outcome?.toList := by
  have idle : (idleEvents hooks pending).toList.filterMap Event.outcome? = [] := by
    unfold idleEvents
    split <;> rfl
  cases e with
  | returned m v => simp [events, idle, Event.outcome?, outcome?]
  | failed cause => rfl
  | suspended => exact idle
  | halted => exact idle

end Ending

namespace Command

def runs : Command → Nat
  | .run _ => 1
  | .fire _ => 0

def fires : Command → Nat
  | .run _ => 0
  | .fire _ => 1

end Command

namespace World

structure Noted (v : World) (e : Ending) (u : World) : Prop where
  machines : u.machines = v.machines
  timers : u.timers = v.timers
  outcomes : u.outcomes = v.outcomes ++ e.outcome?.toList

theorem noted_noteRun (v : World) (hooks : Hooks) (m : MachineId) (e : Ending) :
    v.Noted e (v.noteRun hooks m e) := by
  rw [noteRun_trace]
  refine ⟨rfl, rfl, ?_⟩
  rw [← Ending.outcomes_events hooks (v.pending m) e]
  simp [outcomes]

theorem Noted.of_watch {v u : World} {e : Ending} {bound : Nat} {c : Config}
    (noted : (v.watch bound c).Noted e u) : v.Noted e u :=
  ⟨noted.machines, noted.timers, noted.outcomes⟩

theorem noted_runNoted {bound : Nat} {hooks : Hooks} {m : MachineId} {e : Expr} {env : Env}
    {w v u : World} {ending : Ending} (driven : run bound m e env w = some (ending, v))
    (noted : runNoted bound hooks m e env w = some u) : v.Noted ending u := by
  simp only [runNoted, driven, Option.map_some, Option.some.injEq] at noted
  have after := noted_noteRun (v.watch bound (.ofProgram m e env w)) hooks m ending
  subst noted
  unfold noteRan
  split
  · refine ⟨after.machines, after.timers, ?_⟩
    rw [outcomes_note, after.outcomes]
    exact List.append_nil _
  · exact .of_watch after

def noteLeft (left : Option Failure × World) : World :=
  match left.1 with
  | none => left.2
  | some cause => left.2.note (.raised cause)

theorem noted_noteFired (v : World) (hooks : Hooks) (m : MachineId) (e : Ending) :
    v.Noted e (noteLeft (v.noteFired hooks m e)) := by
  cases e with
  | failed cause =>
      by_cases hook : hooks.onError = true
      · simp only [noteFired, if_pos hook, noteLeft]
        exact ⟨rfl, rfl, outcomes_note _ _⟩
      · simp only [noteFired, if_neg hook, noteLeft]
        exact ⟨rfl, rfl, outcomes_note _ _⟩
  | returned owner value => exact noted_noteRun v hooks m (.returned owner value)
  | suspended => exact noted_noteRun v hooks m .suspended
  | halted => exact noted_noteRun v hooks m .halted

namespace Noted

variable {v u : World} {e : Ending}

theorem pending (noted : v.Noted e u) (m : MachineId) : u.pending m = v.pending m := by
  simp only [World.pending, machine?, noted.machines]

theorem loop? (noted : v.Noted e u) (m : MachineId) : u.loop? m = v.loop? m := by
  simp only [World.loop?, machine?, noted.machines]

theorem budgets (noted : v.Noted e u) : u.budgets = v.budgets := by
  simp only [World.budgets, noted.machines]

end Noted

end World

-- The world in which an execution begins, compared with the one before the command: a command that
-- fires takes a timer away, and its resumption is no longer counted.
structure World.Opened (m : MachineId) (w : World) (fires : Nat) (u : World) : Prop where
  timers : u.timers.length + fires = w.timers.length
  pending : u.pending m + fires = w.pending m
  loop : u.loop? m = w.loop? m
  budgets : u.budgets = w.budgets
  outcomes : u.outcomes = w.outcomes

namespace World

variable {m : MachineId} {w u : World}

theorem Opened.of_sameCounts (sameCounts : w.SameCounts u) : w.Opened m 0 u :=
  ⟨by rw [sameCounts.timers]; rfl, by rw [sameCounts.pending]; exact Int.add_zero _, sameCounts.loop? m,
    sameCounts.budgets, sameCounts.outcomes⟩

theorem opened_ofTimer {i : Nat} {t : Timer} (present : w.loop? t.machine ≠ none)
    (taken : w.takeTimer? i = some (t, u)) : w.Opened t.machine 1 (Config.ofTimer t u).world := by
  obtain ⟨_, found, same⟩ := Option.map_eq_some_iff.mp taken
  have here := (List.getElem?_eq_some_iff.mp found).1
  have erased := List.length_eraseIdx_of_lt here
  have sameCounts := sameCounts_refill (u.updateMachine t.machine
    fun machine => { machine with pending := machine.pending - 1 }) t.machine
  have counted := machine?_updateMachine u t.machine
    fun machine => { machine with pending := machine.pending - 1 }
  cases same
  cases known : w.machine? t.machine with
  | none => simp [loop?, known] at present
  | some machine =>
      have less := counted.trans (congrArg _ known)
      refine ⟨?_, ?_, ?_, ?_, rfl⟩
      · change (w.timers.eraseIdx i).length + 1 = w.timers.length
        omega
      · have one := (sameCounts.pending t.machine).trans (pending_of_machine less)
        have before := pending_of_machine known
        rw [before]
        refine (congrArg (· + 1) one).trans ?_
        simp
      · refine (sameCounts.loop? t.machine).trans ?_
        simp [loop?, less, known]
      · exact sameCounts.budgets.trans (budgets_updateMachine _ _ _ fun _ => rfl)

end World

namespace Host

variable (host : Host)

-- The executions of a schedule, each with the command that started it and the way it ended. Where no
-- timer waits there is nothing to execute.
inductive History : World → List Command → List (Command × Ending) → World → Prop where
  | done (w : World) : History w [] [] w
  | idle {w after : World} {command : Command} {commands : List Command}
      {log : List (Command × Ending)} :
      host.start? w command = none → History w commands log after →
        History w (command :: commands) log after
  | executed {w v u after : World} {c : Config} {ending : Ending} {command : Command}
      {commands : List Command} {log : List (Command × Ending)} (bound : Nat) :
      host.start? w command = some c → drive bound c = some (ending, v) →
        host.obey bound w command = some u → History u commands log after →
          History w (command :: commands) ((command, ending) :: log) after

theorem noted_obey {bound : Nat} {w v u : World} {c : Config} {ending : Ending} {command : Command}
    (started : host.start? w command = some c) (driven : drive bound c = some (ending, v))
    (obeyed : host.obey bound w command = some u) : v.Noted ending u := by
  cases command with
  | run e =>
      cases started
      exact World.noted_runNoted driven obeyed
  | fire i =>
      obtain ⟨⟨t, w'⟩, taken, rfl⟩ := Option.map_eq_some_iff.mp started
      have fired : fire bound t w' = some (ending, v) := driven
      simp only [obey, taken, fireNoted, fired, Option.map_some, Option.some.injEq] at obeyed
      subst obeyed
      exact .of_watch (World.noted_noteFired _ host.hooks t.machine ending)

theorem started_account {w : World} {c : Config} {command : Command}
    (ready : w.ReadyFor host.machine) (present : w.loop? host.machine ≠ none)
    (started : host.start? w command = some c) :
    c.Ready ∧ c.driver = host.machine ∧ w.Opened host.machine command.fires c.world := by
  cases command with
  | run e =>
      cases started
      exact ⟨Config.ready_command ready e host.env, rfl, .of_sameCounts (World.sameCounts_refill w host.machine)⟩
  | fire i =>
      obtain ⟨⟨t, u⟩, taken, same⟩ := Option.map_eq_some_iff.mp started
      obtain ⟨owned, ready'⟩ := World.ready_takeTimer ready i t u taken
      subst same
      exact ⟨Config.ready_ofTimer ready' owned, owned.1,
        owned.1 ▸ World.opened_ofTimer (owned.1.symm ▸ present) taken⟩

structure Entry (w u : World) (command : Command) (ending : Ending) : Prop where
  ready : u.ReadyFor host.machine
  loop : u.loop? host.machine = w.loop? host.machine
  pending : u.pending host.machine + command.fires =
    w.pending host.machine + ending.armed + ending.refused
  timers : u.timers.length + command.fires = w.timers.length + ending.armed
  outcomes : u.outcomes = w.outcomes ++ ending.outcome?.toList
  closed : ending.refused ≠ 0 → w.loop? host.machine = some .closed

theorem entry_obey {bound : Nat} {w v u : World} {c : Config} {ending : Ending} {command : Command}
    (ready : w.ReadyFor host.machine) (present : w.loop? host.machine ≠ none)
    (started : host.start? w command = some c) (driven : drive bound c = some (ending, v))
    (obeyed : host.obey bound w command = some u) : host.Entry w u command ending := by
  obtain ⟨startReady, driver, opened⟩ := host.started_account ready present started
  have left := Config.left_drive bound c ending v startReady driven
  have noted := host.noted_obey started driven obeyed
  rw [driver] at left
  obtain ⟨new, timers, length⟩ := left.timers
  refine ⟨host.ready_obey command ready obeyed, ?_, ?_, ?_, ?_, ?_⟩
  · rw [noted.loop?, left.loop, opened.loop]
  · rw [noted.pending, left.pending, ← opened.pending]
    omega
  · rw [noted.timers, timers, ← opened.timers, List.length_append, length]
    omega
  · rw [noted.outcomes, left.outcomes, opened.outcomes]
  · rw [← opened.loop]
    exact left.closed

end Host

section Totals

def total (f : Ending → Nat) (log : List (Command × Ending)) : Nat := log.foldr (fun x n => f x.2 + n) 0

def fired (log : List (Command × Ending)) : Nat := log.foldr (fun x n => x.1.fires + n) 0

def started (commands : List Command) : Nat := commands.foldr (fun command n => command.runs + n) 0

theorem total_cons (f : Ending → Nat) (command : Command) (ending : Ending)
    (log : List (Command × Ending)) : total f ((command, ending) :: log) = f ending + total f log := rfl

theorem fired_cons (command : Command) (ending : Ending) (log : List (Command × Ending)) :
    fired ((command, ending) :: log) = command.fires + fired log := rfl

theorem started_cons (command : Command) (commands : List Command) :
    started (command :: commands) = command.runs + started commands := rfl

theorem Command.runs_or_fires (command : Command) : command.runs + command.fires = 1 := by
  cases command <;> rfl

theorem total_one_way (log : List (Command × Ending)) :
    total Ending.armed log + total Ending.results log + total Ending.failures log +
      total Ending.halts log = log.length := by
  induction log with
  | nil => rfl
  | cons entry log ih =>
      obtain ⟨command, ending⟩ := entry
      have one := ending.one_way
      simp only [total_cons, List.length_cons]
      omega

end Totals

namespace Host

variable (host : Host)

structure Balance (w : World) (commands : List Command) (log : List (Command × Ending))
    (after : World) : Prop where
  ready : after.ReadyFor host.machine
  loop : after.loop? host.machine = w.loop? host.machine
  pending : after.pending host.machine + fired log =
    w.pending host.machine + total Ending.armed log + total Ending.refused log
  timers : after.timers.length + fired log = w.timers.length + total Ending.armed log
  outcomes : after.outcomes = w.outcomes ++ log.filterMap (·.2.outcome?)
  executions : log.length = started commands + fired log
  open_ : w.loop? host.machine ≠ some .closed → total Ending.refused log = 0

theorem history_balance {w after : World} {commands : List Command} {log : List (Command × Ending)}
    (ready : w.ReadyFor host.machine) (present : w.loop? host.machine ≠ none)
    (history : host.History w commands log after) : host.Balance w commands log after := by
  induction history with
  | done w =>
      exact ⟨ready, rfl, by simp [fired, total], by simp [fired, total], by simp, rfl, fun _ => rfl⟩
  | @idle w after command commands log none _ ih =>
      obtain ⟨left, loop, pending, timers, outcomes, executions, open_⟩ := ih ready present
      refine ⟨left, loop, pending, timers, outcomes, ?_, open_⟩
      cases command with
      | run e => cases none
      | fire i => rwa [started_cons, Command.runs, Nat.zero_add]
  | @executed w v u after c ending command commands log bound start driven obeyed _ ih =>
      have entry := host.entry_obey ready present start driven obeyed
      obtain ⟨left, loop, pending, timers, outcomes, executions, open_⟩ :=
        ih entry.ready (entry.loop ▸ present)
      have first := entry.pending
      have one := entry.timers
      have kind := command.runs_or_fires
      refine ⟨left, loop.trans entry.loop, ?_, ?_, ?_, ?_, ?_⟩
      · rw [fired_cons, total_cons, total_cons]
        omega
      · rw [fired_cons, total_cons]
        omega
      · rw [outcomes, entry.outcomes]
        cases told : ending.outcome? <;> simp [told]
      · rw [started_cons, fired_cons, List.length_cons]
        omega
      · intro notClosed
        have rest := open_ (entry.loop ▸ notClosed)
        by_cases counted : ending.refused = 0
        · rw [total_cons, counted, rest]
        · exact absurd (entry.closed counted) notClosed

end Host

namespace World

def results (w : World) : List Value := w.outcomes.filterMap Except.toOption

structure FreshFor (w : World) (m : MachineId) : Prop extends w.ReadyFor m where
  present : w.loop? m ≠ none
  untimed : w.timers = []
  counted : w.pending m = 0
  untold : w.outcomes = []

end World

theorem Ending.results_outcome (e : Ending) :
    (e.outcome?.toList.filterMap Except.toOption).length = e.results := by
  cases e <;> rfl

theorem Ending.at_most_one (e : Ending) : e.armed + e.refused + e.results ≤ 1 := by
  cases e with
  | failed cause => cases cause <;> simp [armed, refused, results]
  | _ => simp [armed, refused, results]

namespace Host

variable (host : Host)

theorem obey_idle {bound : Nat} {w u : World} {command : Command}
    (none : host.start? w command = none) (obeyed : host.obey bound w command = some u) :
    u = w ∧ command.runs = 0 := by
  cases command with
  | run e => cases none
  | fire i =>
      have absent : w.takeTimer? i = Option.none := Option.map_eq_none_iff.mp none
      simp only [obey, absent, Option.some.injEq] at obeyed
      exact ⟨obeyed.symm, rfl⟩

theorem obey_driven {bound : Nat} {w u : World} {c : Config} {command : Command}
    (start : host.start? w command = some c) (obeyed : host.obey bound w command = some u) :
    ∃ ending v, drive bound c = some (ending, v) := by
  cases command with
  | run e =>
      cases start
      obtain ⟨⟨ending, v⟩, driven, _⟩ := Option.map_eq_some_iff.mp obeyed
      exact ⟨ending, v, driven⟩
  | fire i =>
      obtain ⟨⟨t, w'⟩, taken, rfl⟩ := Option.map_eq_some_iff.mp start
      simp only [obey, taken] at obeyed
      obtain ⟨⟨left, after⟩, noted, _⟩ := Option.map_eq_some_iff.mp obeyed
      obtain ⟨⟨ending, v⟩, driven, _⟩ := Option.map_eq_some_iff.mp noted
      exact ⟨ending, v, driven⟩

theorem goesThrough_one {w v : World} {commands : List Command} (ready : w.ReadyFor host.machine)
    (present : w.loop? host.machine ≠ none) (waiting : w.timers.length ≤ w.pending host.machine)
    (one : w.pending host.machine + w.results.length + started commands ≤ 1)
    (passes : host.GoesThrough w commands v) :
    0 ≤ v.pending host.machine ∧ v.pending host.machine + v.results.length ≤ 1 := by
  induction passes with
  | now w commands => exact ⟨by omega, by omega⟩
  | @during w command commands c d start reaches =>
      obtain ⟨_, _, opened⟩ := host.started_account ready present start
      have sameCounts := Config.sameCounts_reaches c d reaches
      have results : d.world.results = w.results := by
        simp only [World.results, sameCounts.outcomes, opened.outcomes]
      have pending := opened.pending
      have timers := opened.timers
      rw [sameCounts.pending, results]
      exact ⟨by omega, by omega⟩
  | @later w u v command commands bound obeyed _ ih =>
      cases start : host.start? w command with
      | none =>
          obtain ⟨rfl, runs⟩ := host.obey_idle start obeyed
          rw [started_cons, runs, Nat.zero_add] at one
          exact ih ready present waiting one
      | some c =>
          obtain ⟨ending, after, driven⟩ := host.obey_driven start obeyed
          have entry := host.entry_obey ready present start driven obeyed
          have pending := entry.pending
          have timers := entry.timers
          have few := ending.at_most_one
          have results : u.results.length = w.results.length + ending.results := by
            simp only [World.results, entry.outcomes, List.filterMap_append, List.length_append,
              Ending.results_outcome]
          have kind := command.runs_or_fires
          rw [started_cons] at one
          exact ih entry.ready (entry.loop ▸ present) (by omega) (by omega)

-- Whatever programs a machine has run and whichever timers have fired: each further execution ends in
-- exactly one way and leaves what this way says. So the resumptions that are counted are the timers that
-- were armed and have not fired, and every run is accounted for. Only a closed loop, which refuses timers
-- after they were counted, adds to the count. With one run there is at no time more than one resumption
-- or one result.
theorem every_run_accounted_for (host : Host) (w : World) (fresh : w.FreshFor host.machine) :
    (∀ commands log after, host.History w commands log after →
      (∀ bound command c ending v u, host.start? after command = some c →
        drive bound c = some (ending, v) → host.obey bound after command = some u →
          ending.armed + ending.results + ending.failures + ending.halts = 1 ∧
            host.Entry after u command ending) ∧
      after.outcomes = log.filterMap (·.2.outcome?) ∧
      after.pending host.machine =
        (total Ending.armed log : Int) - fired log + total Ending.refused log ∧
      (after.timers.length : Int) = (total Ending.armed log : Int) - fired log ∧
      0 ≤ after.pending host.machine ∧
      after.pending host.machine + total Ending.results log + total Ending.failures log +
        total Ending.halts log = started commands + total Ending.refused log ∧
      (w.loop? host.machine ≠ some .closed → total Ending.refused log = 0)) ∧
    ∀ commands v, started commands ≤ 1 → host.GoesThrough w commands v →
      0 ≤ v.pending host.machine ∧ v.pending host.machine ≤ 1 ∧ v.results.length ≤ 1 := by
  refine ⟨?_, ?_⟩
  · intro commands log after history
    obtain ⟨ready, loop, pending, timers, outcomes, executions, open_⟩ :=
      host.history_balance fresh.toReadyFor fresh.present history
    have ways := total_one_way log
    rw [fresh.counted] at pending
    rw [fresh.untimed, List.length_nil] at timers
    rw [fresh.untold, List.nil_append] at outcomes
    refine ⟨?_, outcomes, by omega, by omega, by omega, by omega, open_⟩
    intro bound command c ending v u start driven obeyed
    exact ⟨ending.one_way, host.entry_obey ready (loop ▸ fresh.present) start driven obeyed⟩
  · intro commands v single passes
    have none : w.results = [] := by rw [World.results, fresh.untold]; rfl
    have few := host.goesThrough_one fresh.toReadyFor fresh.present
      (by simp [fresh.untimed, fresh.counted]) (by rw [none, fresh.counted, List.length_nil]; omega)
      passes
    exact ⟨few.1, by omega, by omega⟩

end Host

theorem World.fresh_rooted (machine : Machine) (positive : 0 < machine.budget)
    (counted : machine.pending = 0) : (rooted .cps #[machine]).FreshFor 0 where
  toReadyFor := ready_rooted machine positive
  present := by simp [loop?, machine?, rooted, root]
  untimed := rfl
  counted := by simp [pending, machine?, rooted, root, counted]
  untold := rfl

theorem Host.sleeper_then_line_accounted_for :
    ∃ log after, Host.History ⟨0, ⟨0, []⟩, {}⟩ (.rooted .cps #[⟨1, 1, 0, 0, .running⟩])
        sleeperThenLine log after ∧
      after.pending 0 + total Ending.results log + total Ending.failures log +
        total Ending.halts log = 2 ∧ total Ending.armed log = 1 ∧ fired log = 1 ∧
      after.pending 0 = 0 := by
  obtain ⟨log, after, history, armed, fires⟩ :
      ∃ log after, Host.History ⟨0, ⟨0, []⟩, {}⟩ (.rooted .cps #[⟨1, 1, 0, 0, .running⟩])
        sleeperThenLine log after ∧ total Ending.armed log = 1 ∧ fired log = 1 :=
    ⟨_, _, .executed 60 rfl rfl rfl (.executed 60 rfl rfl rfl (.executed 60 rfl rfl rfl (.done _))),
      rfl, rfl⟩
  obtain ⟨_, _, pending, _, _, sum, refused⟩ := (every_run_accounted_for ⟨0, ⟨0, []⟩, {}⟩
    (.rooted .cps #[⟨1, 1, 0, 0, .running⟩]) (World.fresh_rooted _ (by decide) rfl)).1 _ log after history
  have none := refused (by simp [World.loop?, World.machine?, World.rooted, World.root])
  have two : started sleeperThenLine = 2 := rfl
  simp only at pending sum
  exact ⟨log, after, history, by omega, armed, fires, by omega⟩

-- The count is not always that of the timers: one run of `sleep(1)` on a fresh machine whose loop is closed
-- fails with no timer armed, and is counted as waiting from then on.
theorem Host.refused_sleep_stays_counted :
    (World.rooted .cps #[⟨1, 1, 0, 0, .closed⟩]).FreshFor 0 ∧
    ∃ log after, Host.History ⟨0, ⟨0, []⟩, {}⟩ (.rooted .cps #[⟨1, 1, 0, 0, .closed⟩])
        [.run (.call (.var "sleep") [.num 1])] log after ∧
      total Ending.armed log = 0 ∧ fired log = 0 ∧ after.timers = [] ∧ after.pending 0 = 1 ∧
      total Ending.failures log = 1 ∧ started [.run (.call (.var "sleep") [.num 1])] = 1 ∧
      after.pending 0 ≠ (total Ending.armed log : Int) - fired log ∧
      after.pending 0 + total Ending.results log + total Ending.failures log + total Ending.halts log ≠
        started [.run (.call (.var "sleep") [.num 1])] :=
  ⟨World.fresh_rooted _ (by decide) rfl, _, _, .executed 60 rfl rfl rfl (.done _), rfl, rfl, rfl, rfl, rfl, rfl,
    by decide, by decide⟩

end Trampoline

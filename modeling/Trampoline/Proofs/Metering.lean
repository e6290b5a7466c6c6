import Trampoline.Proofs.Progress

set_option autoImplicit false

namespace Trampoline

namespace World

def bounces (w : World) (m : MachineId) : Nat := ((w.machine? m).map Machine.bounces).getD 0

def meters (w : World) (m : MachineId) : Nat × Nat := (w.remaining m, w.bounces m)

theorem meters_updateMachine (w : World) (m n : MachineId) (f : Machine → Machine)
    (remaining : ∀ machine, (f machine).remaining = machine.remaining)
    (bounces : ∀ machine, (f machine).bounces = machine.bounces) : (w.updateMachine m f).meters n = w.meters n := by
  unfold meters World.remaining World.bounces machine? updateMachine
  rw [Array.getElem?_modify]
  split
  · cases w.machines[n]? with
    | none => rfl
    | some machine => exact Prod.ext (remaining machine) (bounces machine)
  · rfl

theorem meters_congr {w u : World} (machines : u.machines = w.machines) (m : MachineId) :
    u.meters m = w.meters m := by
  simp only [meters, remaining, bounces, machine?, machines]

theorem meters_arm {w after : World} {m : MachineId} {milliseconds : Float} {k : Kont} {v : Value}
    {e : Ending} (armed : w.arm m milliseconds k v = .ended e after) (n : MachineId) :
    after.meters n = w.meters n := by
  have counted := meters_updateMachine w m n
    (fun machine => { machine with pending := machine.pending + 1 }) (fun _ => rfl) fun _ => rfl
  unfold arm at armed
  split at armed
  · cases armed
    rfl
  · cases armed
    rfl
  · dsimp only at armed
    split at armed
    · cases armed
      exact counted
    · cases armed
      exact counted

theorem bounces_refill (w : World) (m : MachineId) : (w.refill m).bounces m = w.bounces m := by
  simp only [bounces, refill, machine?_updateMachine, Option.map_map]
  rfl

theorem bounces_spend (w : World) (m : MachineId) : (w.spend m).bounces m = w.bounces m := by
  simp only [bounces, spend, machine?_updateMachine, Option.map_map]
  rfl

theorem meters_countLegs {w : World} {m : MachineId} {B : Nat} (budget : w.budgets[m]? = some B) (legs : Nat) :
    (w.countLegs m legs).meters m = (w.remaining m, w.bounces m + (legs - 1)) := by
  rw [getElem?_budgets] at budget
  obtain ⟨machine, found, _⟩ := Option.map_eq_some_iff.mp budget
  have counted : ((w.updateMachine m
      fun machine => { machine with bounces := machine.bounces + (legs - 1) }).meters m) =
        (w.remaining m, w.bounces m + (legs - 1)) := by
    simp [meters, remaining, bounces, machine?_updateMachine, found]
  unfold countLegs
  dsimp only
  split
  · exact counted
  · exact counted

end World

def Next.world : Next → World
  | .call _ w => w
  | .ended _ w => w

theorem Call.meters_perform (c : Call) (u : World) (m : MachineId) :
    (c.perform u).world.meters m = u.meters m := by
  have act := c.perform_act u
  generalize c.perform u = next at act
  cases act with
  | goes machines _ _ => exact World.meters_congr machines m
  | returns _ => rfl
  | stops _ _ => rfl
  | sleeps _ milliseconds armed =>
      obtain ⟨e, after, ended, _⟩ := World.arm_ended u _ milliseconds _ .no
      cases armed.symm.trans ended
      exact World.meters_arm ended m

namespace Config

def guards (bound : Nat) (c : Config) : Nat := (c.checks bound []).countP (·.2)

def passing (c : Config) : Nat := c.check?.toList.countP (·.2)

theorem checks_append (bound : Nat) (c : Config) (seen : List (Checkpoint × Bool)) :
    c.checks bound seen = c.checks bound [] ++ seen := by
  induction bound generalizing c seen with
  | zero => rfl
  | succ bound ih =>
      have joined (check : Checkpoint × Bool) (d : Config) :
          d.checks bound (check :: seen) = d.checks bound [check] ++ seen := by
        rw [ih d (check :: seen), ih d [check], List.append_assoc, List.singleton_append]
      simp only [checks]
      cases c.step with
      | ended e w => cases c.check? <;> rfl
      | next d =>
          cases c.check? with
          | none => exact ih d seen
          | some check => exact joined check d

theorem guards_next {c d : Config} (next : c.step = .next d) (bound : Nat) :
    c.guards (bound + 1) = d.guards bound + c.passing := by
  simp only [guards, passing, checks, next]
  rw [checks_append, List.countP_append]
  cases c.check? <;> rfl

theorem guards_ended {c : Config} {e : Ending} {w : World} (ended : c.step = .ended e w) (bound : Nat) :
    c.guards (bound + 1) = c.passing := by
  simp only [guards, passing, checks, ended]
  cases c.check? <;> rfl

variable {B : Nat} {c : Config}

theorem metered_step (ready : c.Ready) (budget : c.world.budgets[c.driver]? = some B) :
    (c.step = .next c.bounced ∧ c.world.remaining c.driver = 0 ∧ c.passing = 0 ∧ c.bounced.passing = 1) ∨
      ∃ u, c.step = advance c.driver c.legs (c.call.perform u) ∧ u.quiet = c.world.quiet ∧
        c.passing = c.call.checks ∧ u.remaining c.driver + c.passing = c.world.remaining c.driver ∧
          u.bounces c.driver = c.world.bounces c.driver := by
  obtain ⟨m, legs, call, w⟩ := c
  have positive : w.CanRefill m := ready.positive
  have budget : w.budgets[m]? = some B := budget
  cases check : call.checkpoint? with
  | none =>
      have none : passing ⟨m, legs, call, w⟩ = 0 := by simp [passing, check?, check]
      exact .inr ⟨w, by simp only [step, check], rfl, by simp [none, Call.checks, check], by simp [none], rfl⟩
  | some spending =>
      obtain ⟨owner, point⟩ := spending
      cases checkpoint_owner m owner point call ready.call check
      cases affordable : w.canSpend m with
      | true =>
          have one : passing ⟨m, legs, call, w⟩ = 1 := by simp [passing, check?, check, affordable]
          refine .inr ⟨w.spend m, by simp only [step, check, affordable, if_true], World.quiet_spend w m,
            by simp [one, Call.checks, check], ?_, World.bounces_spend w m⟩
          rw [one]
          exact World.remaining_spend budget affordable
      | false =>
          have blocked : Blocked ⟨m, legs, call, w⟩ := ⟨m, point, check, affordable⟩
          refine .inl ⟨step_blocked blocked, ?_, by simp [passing, check?, check, affordable], ?_⟩
          · rw [World.getElem?_budgets] at budget
            obtain ⟨machine, found, _⟩ := Option.map_eq_some_iff.mp budget
            simpa [World.remaining, World.canSpend, found] using affordable
          · have full := w.canSpend_refill m positive
            simp [passing, check?, bounced, check, full]

theorem passing_le_guards (bound : Nat) (c : Config) : c.passing ≤ c.guards (bound + 1) := by
  cases stepped : c.step with
  | next d =>
      rw [guards_next stepped]
      omega
  | ended e w => exact Nat.le_of_eq (guards_ended stepped bound).symm

-- What an execution that passes some checks leaves on the meters, where more legs are begun: each of them gets
-- a full budget, and the last has spent some of it. The legs of a failed execution are not counted.
structure Metered (B : Nat) (c : Config) (passed : Nat) (e : Ending) (after : World) (more : Nat) : Prop where
  steps : after.remaining c.driver + passed = c.world.remaining c.driver + B * more
  last : more = 0 ∨ after.remaining c.driver < B
  bounces : after.bounces c.driver =
    c.world.bounces c.driver + if e.failures = 0 then c.legs - 1 + more else 0

theorem Metered.bounce {passed more : Nat} {e : Ending} {after : World}
    (budget : c.world.budgets[c.driver]? = some B) (begun : 0 < c.legs)
    (spent : c.world.remaining c.driver = 0) (again : 0 < passed)
    (ahead : Metered B c.bounced passed e after more) : Metered B c passed e after (more + 1) := by
  have full : c.bounced.world.remaining c.driver = B := World.remaining_refill budget
  have same : c.bounced.world.bounces c.driver = c.world.bounces c.driver :=
    World.bounces_refill c.world c.driver
  have legs : c.bounced.legs = c.legs + 1 := rfl
  obtain ⟨steps, last, bounces⟩ := ahead
  have driver : c.bounced.driver = c.driver := rfl
  rw [driver] at steps last bounces
  refine ⟨?_, .inr ?_, ?_⟩
  · rw [Nat.mul_succ]
    omega
  · rcases last with rfl | low
    · omega
    · exact low
  · rw [bounces, same, legs]
    split <;> omega

theorem Metered.call {d : Config} {passed more : Nat} {e : Ending} {after : World}
    (driver : d.driver = c.driver) (legs : d.legs = c.legs)
    (paid : d.world.remaining c.driver + c.passing = c.world.remaining c.driver)
    (kept : d.world.bounces c.driver = c.world.bounces c.driver)
    (ahead : Metered B d passed e after more) : Metered B c (passed + c.passing) e after more := by
  obtain ⟨steps, last, bounces⟩ := ahead
  rw [driver] at steps last bounces
  rw [kept, legs] at bounces
  exact ⟨by omega, last, bounces⟩

theorem metered_ended {e : Ending} {after : World} (ready : c.Ready)
    (budget : c.world.budgets[c.driver]? = some B) (stepped : c.step = .ended e after) :
    Metered B c c.passing e after 0 := by
  rcases metered_step ready budget with ⟨bounced, _⟩ | ⟨u, made, _, _, paid, kept⟩
  · cases stepped.symm.trans bounced
  · have unmoved := c.call.meters_perform u c.driver
    have ended := stepped
    rw [made] at ended
    cases result : c.call.perform u with
    | call call' w' =>
        rw [result] at ended
        cases ended
    | ended e' w' =>
        rw [result] at ended unmoved
        obtain ⟨remaining, bounces⟩ : w'.remaining c.driver = u.remaining c.driver ∧
          w'.bounces c.driver = u.bounces c.driver := Prod.mk.inj unmoved
        have sameBudget : w'.budgets[c.driver]? = some B := by
          rw [← (finish_keeps _ _ _ _ _ _ ended).2.2, (left_ended c e after ready stepped).budgets]
          exact budget
        obtain ⟨steps, counted⟩ := Prod.mk.inj (World.meters_countLegs sameBudget c.legs)
        -- only a failure leaves the legs uncounted
        cases e' with
        | failed cause =>
            cases ended
            exact ⟨by omega, .inl rfl, bounces.trans kept⟩
        | _ =>
            cases ended
            refine ⟨by omega, .inl rfl, ?_⟩
            rw [counted, bounces, kept]
            rfl

theorem metered_drive (bound : Nat) (c : Config) (e : Ending) (after : World) (ready : c.Ready)
    (budget : c.world.budgets[c.driver]? = some B) (begun : 0 < c.legs)
    (driven : drive bound c = some (e, after)) : ∃ more, Metered B c (c.guards bound) e after more := by
  induction bound generalizing c with
  | zero => cases driven
  | succ bound ih =>
      rw [drive] at driven
      cases stepped : c.step with
      | ended e' w' =>
          rw [stepped] at driven
          cases driven
          rw [guards_ended stepped]
          exact ⟨0, metered_ended ready budget stepped⟩
      | next d =>
          rw [stepped] at driven
          obtain ⟨stillReady, sameDriver, _⟩ := ready_next c d ready stepped
          have sameBudget : d.world.budgets[d.driver]? = some B := by
            rw [sameDriver, (sameCounts_next c d stepped).budgets]
            exact budget
          rw [guards_next stepped]
          rcases metered_step ready budget with ⟨bounced, spent, passing, again⟩ | ⟨u, made, _, _, paid, kept⟩
          · cases stepped.symm.trans bounced
            obtain ⟨more, ahead⟩ := ih c.bounced stillReady sameBudget (Nat.succ_pos _) driven
            have first : 0 < c.bounced.guards bound := by
              cases bound with
              | zero => cases driven
              | succ bound => exact Nat.lt_of_lt_of_le (by omega) (passing_le_guards bound c.bounced)
            rw [passing]
            exact ⟨more + 1, ahead.bounce budget begun spent first⟩
          · have unmoved := c.call.meters_perform u c.driver
            cases result : c.call.perform u with
            | ended e' w' =>
                obtain ⟨_, finished, _⟩ := finish_ended c.driver c.legs e' w'
                rw [made, result, advance, finished] at stepped
                cases stepped
            | call call' w' =>
                rw [made, result] at stepped
                cases stepped
                rw [result] at unmoved
                obtain ⟨remaining, bounces⟩ : w'.remaining c.driver = u.remaining c.driver ∧
                  w'.bounces c.driver = u.bounces c.driver := Prod.mk.inj unmoved
                obtain ⟨more, ahead⟩ := ih _ stillReady sameBudget begun driven
                have spent : w'.remaining c.driver + c.passing = c.world.remaining c.driver := by omega
                exact ⟨more, Metered.call (d := ⟨c.driver, c.legs, call', w'⟩) rfl rfl spent
                  (bounces.trans kept) ahead⟩

end Config

inductive Call.Asks : Call → World → Nat → Prop where
  | last {c : Call} {w w' : World} {e : Ending} : c.perform w = .ended e w' → Asks c w c.checks
  | call {c c' : Call} {w w' : World} {n : Nat} :
      c.perform w = .call c' w' → Asks c' w' n → Asks c w (n + c.checks)

theorem Call.Asks.unique {c : Call} {w : World} {n n' : Nat} (asks : Asks c w n) (asks' : Asks c w n') :
    n = n' := by
  induction asks generalizing n' with
  | last ended =>
      cases asks' with
      | last _ => rfl
      | call made _ => cases ended.symm.trans made
  | call made _ ih =>
      cases asks' with
      | last ended => cases made.symm.trans ended
      | call made' rest =>
          cases made.symm.trans made'
          rw [ih rest]

namespace Config

theorem asks_drive {B : Nat} (bound : Nat) (c : Config) (r : Ending × World) (ready : c.Ready)
    (budget : c.world.budgets[c.driver]? = some B) (driven : drive bound c = some r) :
    c.call.Asks c.world.quiet (c.guards bound) := by
  induction bound generalizing c with
  | zero => cases driven
  | succ bound ih =>
      rw [drive] at driven
      cases stepped : c.step with
      | ended e' w' =>
          rw [guards_ended stepped]
          rcases metered_step ready budget with ⟨bounced, _⟩ | ⟨u, _, _, asked, _⟩
          · cases stepped.symm.trans bounced
          · rw [asked]
            exact .last (step_ended_quiet c e' w' stepped)
      | next d =>
          rw [stepped] at driven
          obtain ⟨stillReady, sameDriver, _⟩ := ready_next c d ready stepped
          have sameBudget : d.world.budgets[d.driver]? = some B := by
            rw [sameDriver, (sameCounts_next c d stepped).budgets]
            exact budget
          have ahead := ih d stillReady sameBudget driven
          rw [guards_next stepped]
          rcases metered_step ready budget with ⟨bounced, _, passing, _⟩ | ⟨u, made, quiet, asked, _⟩
          · cases stepped.symm.trans bounced
            rw [passing, ← c.world.quiet_refill c.driver]
            exact ahead
          · have performed := Call.perform_quiet c.call u
            cases result : c.call.perform u with
            | ended e' w' =>
                obtain ⟨_, finished, _⟩ := finish_ended c.driver c.legs e' w'
                rw [made, result, advance, finished] at stepped
                cases stepped
            | call call' w' =>
                rw [made, result] at stepped
                cases stepped
                rw [quiet, result] at performed
                rw [asked]
                exact .call performed ahead

end Config

theorem metered_quotient {B r g more : Nat} (positive : 0 < B) (steps : r + g = B + B * more)
    (last : more = 0 ∨ r < B) : more = (g - 1) / B ∧ r = if g = 0 then B else B - 1 - (g - 1) % B := by
  by_cases none : g = 0
  · subst none
    rcases last with rfl | low
    · simpa using steps
    · have more := Nat.le_add_right B (B * more)
      omega
  · have low : r < B := by
      rcases last with rfl | low
      · omega
      · exact low
    have split : g - 1 = B * more + (B - 1 - r) := by omega
    have small : B - 1 - r < B := by omega
    rw [if_neg none, split, Nat.mul_add_div positive, Nat.div_eq_of_lt small, Nat.mul_add_mod,
      Nat.mod_eq_of_lt small]
    omega

namespace Host

variable (host : Host)

theorem started_fresh {u : World} {command : Command} {s : Config} (ready : u.ReadyFor host.machine)
    (started : host.start? u command = some s) :
    s.legs = 1 ∧ s.world.bounces host.machine = u.bounces host.machine := by
  cases command with
  | run e =>
      cases started
      exact ⟨rfl, World.bounces_refill u host.machine⟩
  | fire i =>
      obtain ⟨⟨t, v⟩, taken, rfl⟩ := Option.map_eq_some_iff.mp started
      obtain ⟨owned, _⟩ := World.ready_takeTimer ready i t v taken
      obtain ⟨_, _, same⟩ := Option.map_eq_some_iff.mp taken
      cases same
      rw [← owned.1]
      have counted := World.meters_updateMachine { u with timers := u.timers.eraseIdx i, now := t.due } t.machine
        t.machine (fun machine => { machine with pending := machine.pending - 1 }) (fun _ => rfl) fun _ => rfl
      exact ⟨rfl, (World.bounces_refill _ t.machine).trans (Prod.mk.inj counted).2⟩

theorem metered_obey {B bound : Nat} {u v after : World} {command : Command} {s : Config} {e : Ending}
    (ready : u.ReadyFor host.machine) (budget : u.budgets[host.machine]? = some B)
    (started : host.start? u command = some s) (driven : drive bound s = some (e, v))
    (obeyed : host.obey bound u command = some after) :
    after.bounces host.machine = u.bounces host.machine +
        (if e.failures = 0 then (s.guards bound - 1) / B else 0) ∧
      after.remaining host.machine =
        if s.guards bound = 0 then B else B - 1 - (s.guards bound - 1) % B := by
  obtain ⟨startReady, driver, opened⟩ := host.started_account ready (present_of_budget budget) started
  have full := host.started_full ready budget started
  obtain ⟨first, before⟩ := host.started_fresh ready started
  have sameBudget : s.world.budgets[s.driver]? = some B := by
    rw [driver, opened.budgets]
    exact budget
  obtain ⟨more, metered⟩ := Config.metered_drive bound s e v startReady sameBudget (by omega) driven
  obtain ⟨steps, last, bounces⟩ := metered
  rw [driver] at steps last bounces
  obtain ⟨remaining', bounces'⟩ : after.remaining host.machine = v.remaining host.machine ∧
    after.bounces host.machine = v.bounces host.machine :=
      Prod.mk.inj (World.meters_congr (host.noted_obey started driven obeyed).machines host.machine)
  obtain ⟨quotient, remainder⟩ := metered_quotient (ready.positive B budget) (full ▸ steps) last
  rw [bounces', bounces, before, first, remaining', ← remainder, ← quotient]
  exact ⟨by rw [Nat.sub_self, Nat.zero_add], rfl⟩

theorem kept_obeyed {B : Nat} {w u : World} {commands : List Command} (ready : w.ReadyFor host.machine)
    (budget : w.budgets[host.machine]? = some B) (obeyed : host.Obeyed w commands u) :
    u.ReadyFor host.machine ∧ u.budgets[host.machine]? = some B := by
  induction obeyed with
  | done w => exact ⟨ready, budget⟩
  | next bound first _ ih =>
      have sameBudget := host.budgets_obey ready (present_of_budget budget) first
      exact ih (host.ready_obey _ ready first) (sameBudget ▸ budget)

theorem metered_obeyed {B : Nat} {w u : World} {commands : List Command} (ready : w.ReadyFor host.machine)
    (budget : w.budgets[host.machine]? = some B) (room : w.remaining host.machine ≤ B)
    (obeyed : host.Obeyed w commands u) : u.remaining host.machine ≤ B := by
  induction obeyed with
  | done w => exact room
  | @next w u _ command _ bound first _ ih =>
      have sameBudget := host.budgets_obey ready (present_of_budget budget) first
      refine ih (host.ready_obey _ ready first) (sameBudget ▸ budget) ?_
      cases start : host.start? w command with
      | none =>
          rw [(host.obey_idle start first).1]
          exact room
      | some s =>
          obtain ⟨ending, v, driven⟩ := host.obey_driven start first
          rw [(host.metered_obey ready budget start driven first).2]
          split <;> omega

theorem asks_started {B bound : Nat} {u : World} {command : Command} {s : Config} {r : Ending × World}
    (ready : u.ReadyFor host.machine) (budget : u.budgets[host.machine]? = some B)
    (started : host.start? u command = some s) (driven : drive bound s = some r) :
    s.call.Asks s.world.quiet (s.guards bound) := by
  obtain ⟨startReady, driver, opened⟩ := host.started_account ready (present_of_budget budget) started
  refine Config.asks_drive bound s r startReady (B := B) ?_ driven
  rw [driver, opened.budgets]
  exact budget

-- After any schedule, an execution that passes some checks adds the whole budgets before the last of them to
-- the bounces, unless it fails, and leaves what they leave of the last. In any other world that differs in
-- budgets, steps left and bounces only, the same execution passes as many checks.
theorem checks_settle_the_meters (host : Host) (B : Nat) (w : World) (ready : w.ReadyFor host.machine)
    (budget : w.budgets[host.machine]? = some B) (room : w.remaining host.machine ≤ B)
    (commands : List Command) (u : World) (obeyed : host.Obeyed w commands u) :
    u.remaining host.machine ≤ B ∧
    ∀ (command : Command) (s : Config) (bound : Nat) (e : Ending) (v after : World),
      host.start? u command = some s → drive bound s = some (e, v) →
      host.obey bound u command = some after →
        after.bounces host.machine = u.bounces host.machine +
          (if e.failures = 0 then (s.guards bound - 1) / B else 0) ∧
        after.remaining host.machine =
          (if s.guards bound = 0 then B else B - 1 - (s.guards bound - 1) % B) ∧
        ∀ (B' : Nat) (w' u' : World), w'.ReadyFor host.machine → w'.budgets[host.machine]? = some B' →
          w'.quiet = w.quiet → host.Obeyed w' commands u' →
            ∃ s', host.start? u' command = some s' ∧ (∃ bound' r, drive bound' s' = some r) ∧
              ∀ bound' r, drive bound' s' = some r → s'.guards bound' = s.guards bound := by
  obtain ⟨readyNow, budgetNow⟩ := host.kept_obeyed ready budget obeyed
  refine ⟨host.metered_obeyed ready budget room obeyed, ?_⟩
  intro command s bound e v after started driven next
  obtain ⟨bounces, remaining⟩ := host.metered_obey readyNow budgetNow started driven next
  refine ⟨bounces, remaining, ?_⟩
  intro B' w' u' ready' budget' same obeyed'
  obtain ⟨readyNow', budgetNow'⟩ := host.kept_obeyed ready' budget' obeyed'
  have quiet := host.obeyed_unique ready' same.symm obeyed obeyed'
  obtain ⟨s', started', startReady', view⟩ := host.start_same command readyNow' quiet.symm started
  obtain ⟨bound', v', driven', _⟩ := Config.same_view_drive bound s s' e v startReady' view driven
  refine ⟨s', started', ⟨bound', _, driven'⟩, ?_⟩
  intro bound' r driven'
  have asks := host.asks_started readyNow budgetNow started driven
  have asks' := host.asks_started readyNow' budgetNow' started' driven'
  obtain ⟨sameCall, sameWorld⟩ := Prod.mk.inj view
  rw [sameCall, sameWorld] at asks
  exact asks'.unique asks

theorem resumed_sleeper_metered :
    ∃ u s e v after, Obeyed ⟨0, ⟨0, []⟩, {}⟩ (.rooted .cps #[⟨3, 3, 0, 0, .running⟩]) (sleeperThenLine.take 1) u ∧
      start? ⟨0, ⟨0, []⟩, {}⟩ u (.fire 0) = some s ∧ drive 60 s = some (e, v) ∧
      obey ⟨0, ⟨0, []⟩, {}⟩ 60 u (.fire 0) = some after ∧ s.guards 60 = 11 ∧
      after.bounces 0 = u.bounces 0 + 3 ∧ after.remaining 0 = 1 := by
  obtain ⟨u, obeyed, s, e, v, after, started, driven, next, eleven, completed⟩ :
      ∃ u, Obeyed ⟨0, ⟨0, []⟩, {}⟩ (.rooted .cps #[⟨3, 3, 0, 0, .running⟩]) (sleeperThenLine.take 1) u ∧
        ∃ s e v after, start? ⟨0, ⟨0, []⟩, {}⟩ u (.fire 0) = some s ∧ drive 60 s = some (e, v) ∧
          obey ⟨0, ⟨0, []⟩, {}⟩ 60 u (.fire 0) = some after ∧ s.guards 60 = 11 ∧ e.failures = 0 :=
    ⟨_, .next 60 rfl (.done _), _, _, _, _, rfl, rfl, rfl, rfl, rfl⟩
  have metered := checks_settle_the_meters ⟨0, ⟨0, []⟩, {}⟩ 3 (.rooted .cps #[⟨3, 3, 0, 0, .running⟩])
    (World.ready_rooted _ (by decide)) (by simp [World.budgets, World.rooted, World.root]) (by decide)
    (sleeperThenLine.take 1) u obeyed
  obtain ⟨bounces, remaining, _⟩ := metered.2 (.fire 0) s 60 e v after started driven next
  rw [completed, eleven] at bounces
  rw [eleven] at remaining
  exact ⟨u, s, e, v, after, obeyed, started, driven, next, eleven, bounces, remaining⟩

end Host

end Trampoline

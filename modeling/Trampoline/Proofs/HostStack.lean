import Trampoline.Proofs.Accounts
import Trampoline.Proofs.Modes

set_option autoImplicit false

namespace Trampoline

def Value.weight : Value → Nat
  | .builtin _ => 2
  | _ => 0

theorem Value.weight_le (v : Value) : v.weight ≤ 2 := by
  cases v <;> simp [weight]

namespace Call

def functions : Call → Nat
  | .evaluate _ .hole _ _ => 1
  | .evaluate _ (.binding _) _ _ => 1
  | .evaluate .. => 2
  | .apply _ (.builtin b) _ _ _ => if b.mode = .cps then 2 else 1
  | _ => 1

def checks (c : Call) : Nat := if c.checkpoint?.isSome then 1 else 0

def reports : Call → Nat
  | .resume (.timed _ _ :: _) _ => 1
  | _ => 0

-- The functions that a call may lead into before the next check or report. A builtin may apply its first
-- argument with no check in between, and if that is a builtin too, it is given no further one.
def slack : Call → Nat
  | .apply _ func args _ _ => 2 + func.weight + (firstArg args).weight
  | c => c.functions

theorem functions_le (c : Call) : c.functions ≤ 2 := by
  unfold functions
  split <;> try omega
  split <;> omega

theorem functions_le_slack (c : Call) : c.functions ≤ c.slack := by
  have few := c.functions_le
  cases c with
  | apply m func args env k =>
      simp only [slack]
      omega
  | _ => exact Nat.le_refl _

theorem slack_le (c : Call) : c.slack ≤ 6 := by
  have few := c.functions_le
  cases c with
  | apply m func args env k =>
      have first := func.weight_le
      have second := (firstArg args).weight_le
      simp only [slack]
      omega
  | _ => exact Nat.le_trans few (by decide)

theorem perform_slack {c c' : Call} {w w' : World} (made : c.perform w = .call c' w') :
    c.functions + c'.slack ≤ c.slack + 6 * c.checks + c.reports := by
  have enough := c.functions_le_slack
  have next := c'.slack_le
  cases check : c.checkpoint? with
  | some spending =>
      have one : c.checks = 1 := by simp [checks, check]
      omega
  | none =>
      cases c with
      | apply m func args env k =>
          cases func with
          | closure closure =>
              cases made
              simp only [functions, slack]
              omega
          | continuation stamp frames =>
              cases made
              simp only [functions, slack]
              omega
          | builtin b =>
              obtain ⟨name, mode, action, stamp⟩ := b
              cases mode with
              | sync => cases made
              | cps =>
                  have two : (Call.apply m (.builtin ⟨name, .cps, action, stamp⟩) args env k).functions = 2 := rfl
                  have own : (Value.builtin ⟨name, .cps, action, stamp⟩).weight = 2 := rfl
                  cases action with
                  | print =>
                      cases made
                      have one : (Call.resume k .no).functions = 1 := rfl
                      simp only [two, own, one, slack]
                      omega
                  | time =>
                      cases made
                      have none : (firstArg []).weight = 0 := rfl
                      simp only [two, own, none, slack]
                      omega
                  | halt => cases made
                  | sleep =>
                      simp only [perform, applyValue, applyBuiltin] at made
                      split at made
                      · obtain ⟨e, after, ended, _⟩ := World.arm_ended w m _ k .no
                        cases made.symm.trans ended
                      · cases made
                  | callcc =>
                      cases made
                      have handed : (firstArg [.continuation w.stamps k]).weight = 0 := rfl
                      simp only [two, own, slack]
                      omega
          | _ => cases made
      | resume k v =>
          cases k with
          | nil => cases made
          | cons frame k =>
              cases frame with
              | final m => cases made
              | timed start env =>
                  cases made
                  simp [functions, slack, reports]
              | _ => cases check
      | _ => cases check

end Call

structure Leg where
  entered : Nat := 0
  passed : Nat := 0
  reports : Nat := 0

def Leg.enter (leg : Leg) (c : Call) : Leg :=
  ⟨leg.entered + c.functions, leg.passed + c.checks, leg.reports + c.reports⟩

inductive Config.Runs (s : Config) : Leg → Config → Prop where
  | start : Runs s {} s
  | call {leg : Leg} {c : Config} {next : Call} {w : World} :
      Runs s leg c → c.step = .next ⟨c.driver, c.legs, next, w⟩ →
        Runs s (leg.enter c.call) ⟨c.driver, c.legs, next, w⟩
  | bounce {leg : Leg} {c : Config} {next : Call} {w : World} :
      Runs s leg c → c.step = .next ⟨c.driver, c.legs + 1, next, w⟩ →
        Runs s {} ⟨c.driver, c.legs + 1, next, w⟩

namespace World

def remaining (w : World) (m : MachineId) : Nat := ((w.machine? m).map Machine.remaining).getD 0

theorem remaining_refill {w : World} {m : MachineId} {B : Nat} (budget : w.budgets[m]? = some B) :
    (w.refill m).remaining m = B := by
  rw [getElem?_budgets] at budget
  obtain ⟨machine, found, rfl⟩ := Option.map_eq_some_iff.mp budget
  simp [remaining, refill, machine?_updateMachine, found]

theorem remaining_spend {w : World} {m : MachineId} {B : Nat} (budget : w.budgets[m]? = some B)
    (affordable : w.canSpend m = true) : (w.spend m).remaining m + 1 = w.remaining m := by
  rw [getElem?_budgets] at budget
  obtain ⟨machine, found, _⟩ := Option.map_eq_some_iff.mp budget
  have left : 0 < machine.remaining := by simpa [canSpend, found] using affordable
  simp only [remaining, spend, machine?_updateMachine, found, Option.map_some, Option.getD_some]
  omega

end World

-- A leg within the means of a machine with budget B. Each check, and the start of the leg, pays for six
-- functions.
structure Leg.Within (m : MachineId) (B : Nat) (leg : Leg) (c : Config) : Prop where
  ready : c.Ready
  driver : c.driver = m
  budget : c.world.budgets[m]? = some B
  spent : c.world.remaining m + leg.passed = B
  depth : leg.entered + c.call.slack ≤ 6 * (leg.passed + 1) + leg.reports

namespace Leg

variable {m : MachineId} {B : Nat} {leg : Leg} {c d : Config}

theorem within_begin (ready : c.Ready) (driver : c.driver = m) (budget : c.world.budgets[m]? = some B)
    (full : c.world.remaining m = B) : Within m B {} c where
  ready := ready
  driver := driver
  budget := budget
  spent := full
  depth := by simpa using c.call.slack_le

theorem within_next (within : leg.Within m B c) (next : c.step = .next d) :
    (d.legs = c.legs ∧ (leg.enter c.call).Within m B d) ∨ (d.legs = c.legs + 1 ∧ Within m B {} d) := by
  obtain ⟨ready, driver, _⟩ := Config.ready_next c d within.ready next
  have sameCounts := Config.sameCounts_next c d next
  have budget : d.world.budgets[m]? = some B := sameCounts.budgets ▸ within.budget
  have sameDriver : d.driver = m := driver.trans within.driver
  obtain ⟨n, legs, call, w⟩ := c
  cases within.driver
  have spent : w.remaining n + leg.passed = B := within.spent
  have depth : leg.entered + call.slack ≤ 6 * (leg.passed + 1) + leg.reports := within.depth
  have before : w.budgets[n]? = some B := within.budget
  -- The world in which the call is made differs in what the check has taken away.
  have performs : ∀ u : World, u.remaining n + (leg.passed + call.checks) = B →
      Config.advance n legs (call.perform u) = .next d →
        d.legs = legs ∧ (leg.enter call).Within n B d := by
    intro u left made
    cases result : call.perform u with
    | ended e w' =>
        obtain ⟨after, finished, _⟩ := Config.finish_ended n legs e w'
        rw [result, Config.advance, finished] at made
        cases made
    | call call' w' =>
        have paid := Call.perform_slack result
        have act := Call.perform_act call u
        rw [result] at made act
        cases made
        cases act with
        | goes machines _ _ =>
            have same : w'.remaining n = u.remaining n := by
              simp only [World.remaining, World.machine?, machines]
            refine ⟨rfl, ready, rfl, budget, same ▸ left, ?_⟩
            simp only [enter] at depth ⊢
            omega
        | sleeps sleep milliseconds armed =>
            obtain ⟨e, after, ended, _⟩ := World.arm_ended u _ milliseconds _ .no
            cases armed.symm.trans ended
  cases check : call.checkpoint? with
  | none =>
      have free : call.checks = 0 := by simp [Call.checks, check]
      simp only [Config.step, check] at next
      exact .inl (performs w (by omega) next)
  | some spending =>
      obtain ⟨owner, point⟩ := spending
      cases checkpoint_owner n owner point call within.ready.call check
      have one : call.checks = 1 := by simp [Call.checks, check]
      by_cases affordable : w.canSpend n = true
      · have less := World.remaining_spend before affordable
        simp only [Config.step, check, if_pos affordable] at next
        exact .inl (performs (w.spend n) (by omega) next)
      · simp only [Config.step, check, if_neg affordable] at next
        cases next
        exact .inr ⟨rfl, within_begin ready rfl budget (World.remaining_refill before)⟩

theorem within_runs {s : Config} (begins : Within m B {} s) (runs : s.Runs leg c) : leg.Within m B c := by
  induction runs with
  | start => exact begins
  | call _ stepped ih =>
      rcases within_next ih stepped with ⟨_, within⟩ | ⟨bounced, _⟩
      · exact within
      · simp at bounced
  | bounce _ stepped ih =>
      rcases within_next ih stepped with ⟨same, _⟩ | ⟨_, within⟩
      · simp at same
      · exact within

end Leg

namespace Host

variable (host : Host)

inductive Begins : World → List Command → Config → Prop where
  | now {w : World} {command : Command} {commands : List Command} {s : Config} :
      host.start? w command = some s → Begins w (command :: commands) s
  | later {w u : World} {command : Command} {commands : List Command} {s : Config} (bound : Nat) :
      host.obey bound w command = some u → Begins u commands s → Begins w (command :: commands) s

theorem present_of_budget {w : World} {m : MachineId} {B : Nat} (budget : w.budgets[m]? = some B) :
    w.loop? m ≠ none := by
  rw [World.getElem?_budgets] at budget
  obtain ⟨machine, found, _⟩ := Option.map_eq_some_iff.mp budget
  simp [World.loop?, found]

theorem started_full {w : World} {command : Command} {s : Config} {B : Nat}
    (ready : w.ReadyFor host.machine) (budget : w.budgets[host.machine]? = some B)
    (started : host.start? w command = some s) : s.world.remaining host.machine = B := by
  cases command with
  | run e =>
      cases started
      exact World.remaining_refill budget
  | fire i =>
      obtain ⟨⟨t, u⟩, taken, rfl⟩ := Option.map_eq_some_iff.mp started
      obtain ⟨owned, _⟩ := World.ready_takeTimer ready i t u taken
      obtain ⟨_, _, same⟩ := Option.map_eq_some_iff.mp taken
      cases same
      rw [← owned.1] at budget ⊢
      refine World.remaining_refill (Eq.trans (congrArg (·[t.machine]?) ?_) budget)
      exact World.budgets_updateMachine _ t.machine _ fun _ => rfl

theorem budgets_obey {bound : Nat} {w u : World} {command : Command}
    (ready : w.ReadyFor host.machine) (present : w.loop? host.machine ≠ none)
    (obeyed : host.obey bound w command = some u) : u.budgets = w.budgets := by
  cases start : host.start? w command with
  | none => rw [(host.obey_idle start obeyed).1]
  | some s =>
      obtain ⟨startReady, _, opened⟩ := host.started_account ready present start
      obtain ⟨ending, v, driven⟩ := host.obey_driven start obeyed
      have left := Config.left_drive bound s ending v startReady driven
      have noted := host.noted_obey start driven obeyed
      rw [noted.budgets, left.budgets, opened.budgets]

theorem within_begins {w : World} {commands : List Command} {s : Config} {B : Nat}
    (ready : w.ReadyFor host.machine) (budget : w.budgets[host.machine]? = some B)
    (begins : host.Begins w commands s) : Leg.Within host.machine B {} s := by
  induction begins with
  | now started =>
      obtain ⟨startReady, driver, opened⟩ :=
        host.started_account ready (present_of_budget budget) started
      exact Leg.within_begin startReady driver (opened.budgets ▸ budget)
        (host.started_full ready budget started)
  | later bound obeyed _ ih =>
      have same := host.budgets_obey ready (present_of_budget budget) obeyed
      exact ih (host.ready_obey _ ready obeyed) (same ▸ budget)

-- In every leg of every execution of a schedule, the checks passed are no more than the budget, and the
-- functions that stand inside each other are at most six for each of them and six more, beyond the
-- timed calls that were reported. A leg that reports none is bounded by the budget alone.
theorem only_reports_deepen_a_leg (host : Host) (commands : List Command) (w : World) (B : Nat)
    (ready : w.ReadyFor host.machine) (budget : w.budgets[host.machine]? = some B) (s : Config)
    (begins : host.Begins w commands s) (leg : Leg) (c : Config) (runs : s.Runs leg c) :
    leg.passed ≤ B ∧ leg.entered + c.call.functions ≤ 6 * (leg.passed + 1) + leg.reports ∧
      (leg.reports = 0 → leg.entered + c.call.functions ≤ 6 * (B + 1)) := by
  have within := Leg.within_runs (host.within_begins ready budget begins) runs
  have spent := within.spent
  have depth := within.depth
  have functions := c.call.functions_le_slack
  exact ⟨by omega, by omega, by omega⟩

def sleeperThenTimer : List Command :=
  [.run (.prog [.call (.var "sleep") [.num 5], .call (.var "time") [.var "print"]]), .fire 0]

theorem resumed_leg_reports_once :
    ∃ s leg c, Begins ⟨0, ⟨0, []⟩, {}⟩ (.rooted .cps #[⟨9, 9, 0, 0, .running⟩]) sleeperThenTimer s ∧
      s.Runs leg c ∧ leg.reports = 1 ∧ leg.passed ≤ 9 ∧
      leg.entered + c.call.functions ≤ 6 * (leg.passed + 1) + 1 := by
  obtain ⟨s, begins, leg, c, runs, once⟩ :
      ∃ s, Begins ⟨0, ⟨0, []⟩, {}⟩ (.rooted .cps #[⟨9, 9, 0, 0, .running⟩]) sleeperThenTimer s ∧
        ∃ leg c, s.Runs leg c ∧ leg.reports = 1 :=
    ⟨_, .later 60 rfl (.now rfl), _, _, Config.Runs.start.call rfl |>.call rfl |>.call rfl |>.call rfl
      |>.call rfl |>.call rfl |>.call rfl |>.call rfl |>.call rfl |>.call rfl |>.call rfl |>.call rfl, rfl⟩
  obtain ⟨passed, depth, _⟩ := only_reports_deepen_a_leg ⟨0, ⟨0, []⟩, {}⟩ sleeperThenTimer
    (.rooted .cps #[⟨9, 9, 0, 0, .running⟩]) 9 (World.ready_rooted _ (by decide))
    (by simp [World.budgets, World.rooted, World.root]) s begins leg c runs
  exact ⟨s, leg, c, begins, runs, once, passed, once ▸ depth⟩

end Host

def nestedTimers : Nat → Expr
  | 0 => .num 1
  | n + 1 => .call (.var "time") [.lambda [] (nestedTimers n) none]

theorem Call.leads_head {c c' : Call} {w w' : World} {t : Call × World}
    (made : c.perform w = .call c' w') (rest : Leads (c', w') t) : Leads (c, w) t :=
  .head made rest

theorem nestedTimers_leads (n : Nat) (m : MachineId) (env : Env) (k : Kont) (w : World)
    (found : w.store.get? env "time" = some (.builtin ⟨"time", .cps, .time, 0⟩)) :
    ∃ frames w', frames.length = n ∧ (∀ frame ∈ frames, ∃ start at', frame = .timed start at') ∧
      Call.Leads (.evaluate m (nestedTimers n) env k, w) (.resume (frames ++ k) (.num 1), w') := by
  induction n generalizing env k w with
  | zero => exact ⟨[], w, rfl, by simp, .single rfl⟩
  | succ n ih =>
      let closure : Closure := ⟨w.stamps, [], nestedTimers n, none, env⟩
      let before : World := ({ w with stamps := w.stamps + 1 } : World).readClock.2
      have inner := (before.get?_bindParams_nil closure rfl env "time").2.trans found
      obtain ⟨frames, w', length, timed, leads⟩ := ih (before.bindParams closure []).1
        (.timed (w.clock (w.readings + 1)) env :: k) (before.bindParams closure []).2 inner
      refine ⟨frames ++ [.timed (w.clock (w.readings + 1)) env], w', by simp [length], ?_, ?_⟩
      · intro frame member
        rcases List.mem_append.mp member with earlier | last
        · exact timed frame earlier
        · exact ⟨_, _, List.mem_singleton.mp last⟩
      · have callee : (Call.evaluate m (.var "time") env
            (.callee m [.lambda [] (nestedTimers n) none] env :: k)).perform w =
              .call (.resume (.callee m [.lambda [] (nestedTimers n) none] env :: k)
                (.builtin ⟨"time", .cps, .time, 0⟩)) w := by
          simp only [Call.perform, Call.evaluateExpr, found]
        rw [List.append_assoc]
        refine Call.leads_head rfl (Call.leads_head callee ?_)
        refine Call.leads_head rfl (Call.leads_head rfl (Call.leads_head rfl (Call.leads_head rfl ?_)))
        exact Call.leads_head rfl (Call.leads_head rfl (Call.leads_head rfl (Call.leads_head rfl leads)))

namespace Config

theorem runs_next {s c d : Config} {leg : Leg} (runs : s.Runs leg c) (next : c.step = .next d) :
    ∃ leg', s.Runs leg' d := by
  obtain ⟨m, legs, call, w⟩ := c
  rcases step_cases m legs call w with bounced | ⟨u, _, performed⟩
  · cases next.symm.trans bounced
    exact ⟨_, runs.bounce next⟩
  · cases result : call.perform u with
    | call call' w' =>
        rw [result] at performed
        cases next.symm.trans performed
        exact ⟨_, runs.call next⟩
    | ended e w' =>
        obtain ⟨after, finished, _⟩ := finish_ended m legs e w'
        rw [performed, result, advance, finished] at next
        cases next

theorem runs_of_reaches {s c : Config} (reaches : s.Reaches c) : ∃ leg, s.Runs leg c := by
  induction reaches with
  | refl => exact ⟨{}, .start⟩
  | tail _ next ih =>
      obtain ⟨leg, runs⟩ := ih
      exact runs_next runs next

theorem runs_reports {s c : Config} {leg : Leg} {frames k : Kont} {v : Value}
    (timed : ∀ frame ∈ frames, ∃ start env, frame = .timed start env)
    (call : c.call = .resume (frames ++ k) v) (runs : s.Runs leg c) :
    ∃ leg' d, s.Runs leg' d ∧ leg.entered + frames.length ≤ leg'.entered := by
  induction frames generalizing c leg with
  | nil => exact ⟨leg, c, runs, Nat.le_refl _⟩
  | cons frame frames ih =>
      obtain ⟨start, env, rfl⟩ := timed frame List.mem_cons_self
      obtain ⟨m, legs, callAt, w⟩ := c
      cases call
      have next : step ⟨m, legs, .resume (.timed start env :: frames ++ k) v, w⟩ =
          .next ⟨m, legs, .resume (frames ++ k) v, w.reportElapsed env start⟩ := rfl
      obtain ⟨leg', d, runs', deeper⟩ :=
        ih (fun f member => timed f (List.mem_cons_of_mem _ member)) rfl (runs.call next)
      refine ⟨leg', d, runs', ?_⟩
      simp only [Leg.enter, Call.functions, List.length_cons] at deeper ⊢
      omega

end Config

theorem nested_timers_exceed_every_bound :
    ¬ ∃ C, ∀ B, 0 < B → ∀ (e : Expr) (leg : Leg) (c : Config),
      (Config.ofProgram 0 e ⟨0, []⟩ (.rooted .cps #[⟨B, B, 0, 0, .running⟩])).Runs leg c →
        leg.entered + c.call.functions ≤ C * (B + 1) := by
  rintro ⟨C, bound⟩
  have ready := Config.ready_command (World.ready_rooted ⟨1, 1, 0, 0, .running⟩ (by decide))
    (nestedTimers (2 * C + 1)) ⟨0, []⟩
  obtain ⟨frames, w', length, timed, leads⟩ := nestedTimers_leads (2 * C + 1) 0 ⟨0, []⟩ [.final 0]
    (Config.ofProgram 0 (nestedTimers (2 * C + 1)) ⟨0, []⟩
      (.rooted .cps #[⟨1, 1, 0, 0, .running⟩])).world.quiet rfl
  obtain ⟨d, reaches, view⟩ := Config.leads_reaches _ _ ready leads
  obtain ⟨leg, runs⟩ := Config.runs_of_reaches reaches
  obtain ⟨leg', d', runs', deep⟩ := Config.runs_reports timed (congrArg Prod.fst view) runs
  have least := bound 1 (by decide) _ leg' d' runs'
  omega

end Trampoline

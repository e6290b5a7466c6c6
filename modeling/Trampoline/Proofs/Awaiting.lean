import Trampoline.Program
import Trampoline.Proofs.Accounts

set_option autoImplicit false

namespace Trampoline

-- The executions of a run in order, and the world after the last of them. Any of the timers may fire.
inductive Course : Config → List Ending → World → Prop where
  | first {c : Config} {ending : Ending} {w : World} (bound : Nat) :
      drive bound c = some (ending, w) → Course c [ending] w
  | resumed {c : Config} {ending : Ending} {endings : List Ending} {u v w : World} {t : Timer} {i : Nat}
      (bound : Nat) :
      drive bound c = some (ending, u) → u.takeTimer? i = some (t, v) →
        Course (.ofTimer t v) endings w → Course c (ending :: endings) w

def Ending.settled? : Ending → Option Settled
  | .returned _ v => some (.ok (some v))
  | .suspended => none
  | .halted => some (.ok none)
  | .failed cause => some (.error cause)

theorem Ending.settled?_eq_none {e : Ending} (open_ : e.settled? = none) : e = .suspended := by
  cases e with
  | suspended => rfl
  | _ => cases open_

theorem Ending.armed_eq_zero_iff (e : Ending) : e.armed = 0 ↔ e.settled?.isSome = true := by
  cases e <;> simp [armed, settled?]

structure Config.Alone (m : MachineId) (c : Config) : Prop where
  ready : c.Ready
  driver : c.driver = m
  untimed : c.world.timers = []
  counted : c.world.pending m = 0
  running : c.world.loop? m = some .running

-- What an execution leaves that is all its machine has to do: a timer exactly if it has gone to sleep.
structure World.Rests (m : MachineId) (ending : Ending) (w : World) : Prop where
  ready : w.ReadyFor m
  pending : w.pending m = ending.armed
  timers : w.timers.length = ending.armed
  running : w.loop? m = some .running
  owner : ∀ n v, ending = .returned n v → n = m

section

variable {m : MachineId} {c : Config} {ending : Ending} {w : World} {bound : Nat}

theorem Config.Alone.rests (alone : c.Alone m) (driven : drive bound c = some (ending, w)) :
    w.Rests m ending := by
  have left := left_drive bound c ending w alone.ready driven
  rw [alone.driver] at left
  obtain ⟨new, timers, length⟩ := left.timers
  have unrefused : ending.refused = 0 := by
    by_cases counted : ending.refused = 0
    · exact counted
    · have closed := left.closed counted
      rw [alone.running] at closed
      cases closed
  have pending := left.pending
  rw [alone.counted, unrefused] at pending
  rw [alone.untimed, List.nil_append] at timers
  refine ⟨?_, by omega, by rw [timers, length], left.loop.trans alone.running, left.owner⟩
  exact ready_driven alone.ready alone.driver (by simp [alone.untimed]) driven

theorem World.Rests.resumed {t : Timer} {u : World} {i : Nat} (rests : w.Rests m ending)
    (taken : w.takeTimer? i = some (t, u)) : ending = .suspended ∧ (Config.ofTimer t u).Alone m := by
  obtain ⟨owned, ready⟩ := ready_takeTimer rests.ready i t u taken
  have present : w.loop? t.machine ≠ none := by
    rw [owned.1, rests.running]
    simp
  have opened := opened_ofTimer present taken
  rw [owned.1] at opened
  have few := opened.timers
  have count := opened.pending
  have timers := rests.timers
  have pending := rests.pending
  have one : ending.armed = 1 := by
    cases ending <;> simp only [Ending.armed] at timers ⊢ <;> omega
  refine ⟨?_, Config.ready_ofTimer ready owned, owned.1, ?_, by omega, opened.loop.trans rests.running⟩
  · cases ending with
    | suspended => rfl
    | _ => cases one
  · exact List.eq_nil_of_length_eq_zero (by omega)

end

def follow (bound : Nat) (m : MachineId) (more : Nat) (c : Config) : Option (Settled × World) :=
  match drive bound c with
  | none => none
  | some (.failed cause, w) => some (.error cause, w)
  | some (ending, w) => await bound m more ((Promise.onEnding none m ending).onIdle m w) w

theorem await_settled (bound : Nat) (m : MachineId) (more : Nat) (s : Settled) (w : World) :
    await bound m more (some s) w = some (s, w) := by
  cases more <;> rfl

theorem await_follow (bound : Nat) (m : MachineId) (more : Nat) (w : World) :
    await bound m (more + 1) none w =
      w.nextTimer?.bind fun (t, u) => follow bound m more (.ofTimer t u) := by
  rw [await]
  cases w.nextTimer? with
  | none => rfl
  | some next =>
      obtain ⟨t, u⟩ := next
      simp only [Option.bind_some, follow, fire]
      cases drive bound (.ofTimer t u) with
      | none => rfl
      | some r =>
          obtain ⟨ending, after⟩ := r
          cases ending with
          | failed cause => exact await_settled bound m more _ _
          | _ => rfl

theorem runToEnd_follow (bound : Nat) (m : MachineId) (e : Expr) (env : Env) (w : World) :
    runToEnd bound m e env w =
      (follow bound m bound (.ofProgram m e env w)).map fun (s, u) => (s, u.closeLoop m) := by
  simp only [runToEnd, follow, run]
  cases drive bound (.ofProgram m e env w) with
  | none => rfl
  | some r =>
      obtain ⟨ending, after⟩ := r
      cases ending <;> rfl

section

variable {m : MachineId} {c : Config} {ending : Ending} {w : World} {bound : Nat}

theorem follow_settled {s : Settled} (alone : c.Alone m) (driven : drive bound c = some (ending, w))
    (settled : ending.settled? = some s) (more : Nat) : follow bound m more c = some (s, w) := by
  have rests := alone.rests driven
  have pending := rests.pending
  simp only [follow, driven]
  cases ending with
  | suspended => cases settled
  | failed cause =>
      cases settled
      rfl
  | halted =>
      cases settled
      simp only [Promise.onEnding, Promise.onIdle, pending, Ending.armed]
      exact await_settled bound m more _ w
  | returned owner v =>
      cases settled
      cases rests.owner owner v rfl
      simp only [Promise.onEnding, Promise.onIdle, pending, Ending.armed]
      exact await_settled bound m more _ w

theorem follow_suspended (alone : c.Alone m) (driven : drive bound c = some (.suspended, w))
    (more : Nat) : follow bound m more c = await bound m more none w := by
  have pending := (alone.rests driven).pending
  simp only [follow, driven, Promise.onEnding, Promise.onIdle, pending, Ending.armed]
  rfl

theorem World.Rests.nextTimer (rests : w.Rests m .suspended) :
    ∃ t u, w.nextTimer? = some (t, u) ∧ w.takeTimer? 0 = some (t, u) ∧
      ∀ i t' u', w.takeTimer? i = some (t', u') → t' = t ∧ u' = u := by
  obtain ⟨t, one⟩ := List.length_eq_one_iff.mp rests.timers
  refine ⟨t, { w with timers := [], now := t.due }, ?_, ?_, ?_⟩
  · simp [nextTimer?, one, earliest?, earliestIn]
  · simp [takeTimer?, one]
  · intro i t' u' taken
    cases i with
    | zero =>
        simp only [takeTimer?, one] at taken
        cases taken
        exact ⟨rfl, rfl⟩
    | succ i => simp [takeTimer?, one] at taken

end

theorem course_of_follow {m : MachineId} {bound more : Nat} {c : Config} {s : Settled} {w : World}
    (alone : c.Alone m) (reported : follow bound m more c = some (s, w)) :
    ∃ endings ending, Course c (endings ++ [ending]) w ∧ ending.settled? = some s := by
  induction more generalizing c with
  | zero =>
      cases driven : drive bound c with
      | none => simp [follow, driven] at reported
      | some r =>
          obtain ⟨ending, u⟩ := r
          cases settled : ending.settled? with
          | none =>
              cases Ending.settled?_eq_none settled
              rw [follow_suspended alone driven] at reported
              cases reported
          | some s' =>
              cases reported.symm.trans (follow_settled alone driven settled 0)
              exact ⟨[], ending, .first bound driven, settled⟩
  | succ more ih =>
      cases driven : drive bound c with
      | none => simp [follow, driven] at reported
      | some r =>
          obtain ⟨ending, u⟩ := r
          cases settled : ending.settled? with
          | none =>
              cases Ending.settled?_eq_none settled
              have rests := alone.rests driven
              obtain ⟨t, v, next, taken, _⟩ := rests.nextTimer
              rw [follow_suspended alone driven, await_follow, next] at reported
              obtain ⟨endings, ending, course, settled⟩ := ih (rests.resumed taken).2 reported
              exact ⟨.suspended :: endings, ending, .resumed bound driven taken course, settled⟩
          | some s' =>
              cases reported.symm.trans (follow_settled alone driven settled (more + 1))
              exact ⟨[], ending, .first bound driven, settled⟩

theorem follow_of_course {m : MachineId} {c : Config} {endings : List Ending} {w : World}
    (alone : c.Alone m) (course : Course c endings w) :
    ∃ front ending, endings = front ++ [ending] ∧ (∀ x ∈ front, x = .suspended) ∧ w.Rests m ending ∧
      ∀ s, ending.settled? = some s → ∃ need, ∀ bound more, need ≤ bound → front.length ≤ more →
        follow bound m more c = some (s, w) := by
  induction course with
  | @first c ending w bound driven =>
      refine ⟨[], ending, rfl, by simp, alone.rests driven, ?_⟩
      intro s settled
      refine ⟨bound, ?_⟩
      intro more steps enough _
      exact follow_settled alone (drive_mono bound c _ driven more enough) settled steps
  | @resumed c ending endings u v w t i bound driven taken _ ih =>
      have rests := alone.rests driven
      obtain ⟨rfl, next⟩ := rests.resumed taken
      obtain ⟨front, last, rfl, asleep, rest, settles⟩ := ih next
      refine ⟨.suspended :: front, last, rfl, by simpa using asleep, rest, ?_⟩
      intro s settled
      obtain ⟨need, reported⟩ := settles s settled
      refine ⟨max bound need, ?_⟩
      intro more steps enough long
      obtain ⟨steps, rfl⟩ : ∃ fewer, steps = fewer + 1 := ⟨steps - 1, by simp at long; omega⟩
      obtain ⟨t', v', first, _, only⟩ := rests.nextTimer
      obtain ⟨rfl, rfl⟩ := only i t v taken
      have again := drive_mono bound c _ driven more (by omega)
      rw [follow_suspended alone again, await_follow, first]
      exact reported more steps (by omega) (by simpa using long)

theorem Course.settles {m : MachineId} {c : Config} {endings : List Ending} {ending : Ending} {w : World}
    (course : Course c (endings ++ [ending]) w) (alone : c.Alone m) :
    (∀ x ∈ endings, x = .suspended) ∧ w.Rests m ending ∧
      ∀ s, ending.settled? = some s → ∃ need, ∀ bound, need ≤ bound →
        follow bound m bound c = some (s, w) := by
  obtain ⟨front, last, same, asleep, rests, settles⟩ := follow_of_course alone course
  obtain ⟨rfl, one⟩ := List.append_inj' same rfl
  cases one
  refine ⟨asleep, rests, ?_⟩
  intro s settled
  obtain ⟨need, reported⟩ := settles s settled
  refine ⟨max need endings.length, ?_⟩
  intro bound enough
  exact reported bound bound (by omega) (by omega)

section

variable {w : World} {B : Nat}

theorem World.machine?_addMachine (w : World) (B : Nat) (loop : Loop) :
    (w.addMachine B loop).2.machine? w.machines.size = some ⟨B, B, 0, 0, loop⟩ := by
  simp [addMachine, machine?]

def Config.awaited (B : Nat) (e : Expr) (env : Env) (w : World) : Config :=
  .ofProgram w.machines.size e env (w.addMachine B .running).2

theorem Config.alone_awaited (positive : 0 < B) (owned : w.store.OwnedBy w.machines.size)
    (untimed : w.timers = []) (e : Expr) (env : Env) : (awaited B e env w).Alone w.machines.size := by
  have added := w.machine?_addMachine B .running
  have sameCounts := World.sameCounts_refill (w.addMachine B .running).2 w.machines.size
  have store : (w.addMachine B .running).2.store.OwnedBy w.machines.size := owned
  have refillable : (w.addMachine B .running).2.CanRefill w.machines.size := by
    intro budget found
    rw [World.getElem?_budgets, added] at found
    cases found
    exact positive
  refine ⟨ready_ofProgram store refillable e env, rfl, untimed, ?_, ?_⟩
  · exact (sameCounts.pending _).trans (World.pending_of_machine added)
  · exact (sameCounts.loop? _).trans (congrArg (Option.map Machine.loop) added)

variable {settings : Settings} {budget : Option Int}

theorem runAsync_follow (checked : checkBudget settings budget = .ok B) (bound : Nat) (e : Expr)
    (env : Env) (w : World) :
    runAsync bound settings budget e env w =
      (follow bound w.machines.size bound (.awaited B e env w)).map fun (s, u) =>
        (s, (u.closeLoop w.machines.size).noteFinished w.machines.size s) := by
  simp only [runAsync, checked, World.addMachine, runToEnd_follow, Option.map_map]
  rfl

theorem reported_iff (checked : checkBudget settings budget = .ok B) {e : Expr} {env : Env}
    (alone : (Config.awaited B e env w).Alone w.machines.size) (s : Settled) :
    (∃ bound after, runAsync bound settings budget e env w = some (s, after)) ↔
      ∃ endings ending last, Course (.awaited B e env w) (endings ++ [ending]) last ∧
        ending.settled? = some s := by
  constructor
  · rintro ⟨bound, after, ran⟩
    rw [runAsync_follow checked] at ran
    obtain ⟨⟨s', last⟩, reported, same⟩ := Option.map_eq_some_iff.mp ran
    cases same
    obtain ⟨endings, ending, course, settled⟩ := course_of_follow alone reported
    exact ⟨endings, ending, last, course, settled⟩
  · rintro ⟨endings, ending, last, course, settled⟩
    obtain ⟨_, _, settles⟩ := course.settles alone
    obtain ⟨need, reported⟩ := settles s settled
    exact ⟨need, _, by rw [runAsync_follow checked, reported need (Nat.le_refl need)]; rfl⟩

theorem reported_by (checked : checkBudget settings budget = .ok B) {e : Expr} {env : Env}
    (alone : (Config.awaited B e env w).Alone w.machines.size) {s : Settled} {ending : Ending}
    (settles : ending.settled? = some s)
    (only : ∀ other last, World.Rests w.machines.size other last → other.settled? = some s → other = ending) :
    (∃ bound after, runAsync bound settings budget e env w = some (s, after)) ↔
      ∃ endings last, Course (.awaited B e env w) (endings ++ [ending]) last := by
  rw [reported_iff checked alone]
  constructor
  · rintro ⟨endings, other, last, course, settled⟩
    obtain ⟨_, rests, _⟩ := course.settles alone
    exact ⟨endings, last, only other last rests settled ▸ course⟩
  · rintro ⟨endings, last, course⟩
    exact ⟨endings, ending, last, course, settles⟩

end

-- A run on a machine of its own, in a world without continuations of other machines. It returns a value
-- exactly if one of its executions did, no value exactly if one has halted, and fails exactly if one has
-- failed. It is settled by an execution that ends with nothing pending, and by none before it; once no
-- timer waits it is settled.
theorem awaited_run_reports_its_executions (settings : Settings) (budget : Option Int) (B : Nat)
    (checked : checkBudget settings budget = .ok B) (positive : 0 < B) (e : Expr) (env : Env) (w : World)
    (owned : w.store.OwnedBy w.machines.size) (untimed : w.timers = []) :
    (∀ v, (∃ bound after, runAsync bound settings budget e env w = some (.ok (some v), after)) ↔
      ∃ endings last, Course (.awaited B e env w) (endings ++ [.returned w.machines.size v]) last) ∧
    ((∃ bound after, runAsync bound settings budget e env w = some (.ok none, after)) ↔
      ∃ endings last, Course (.awaited B e env w) (endings ++ [.halted]) last) ∧
    (∀ cause, (∃ bound after, runAsync bound settings budget e env w = some (.error cause, after)) ↔
      ∃ endings last, Course (.awaited B e env w) (endings ++ [.failed cause]) last) ∧
    (∀ bound s after, runAsync bound settings budget e env w = some (s, after) →
      ∃ endings ending last, Course (.awaited B e env w) (endings ++ [ending]) last ∧
        ending.settled? = some s ∧ (∀ x ∈ endings, x = .suspended) ∧
        last.pending w.machines.size = 0 ∧ last.timers = []) ∧
    ∀ endings ending last, Course (.awaited B e env w) (endings ++ [ending]) last →
      last.pending w.machines.size = last.timers.length ∧ (last.timers = [] ↔ ending ≠ .suspended) ∧
        (last.timers = [] → ∃ s need, ending.settled? = some s ∧ ∀ bound, need ≤ bound →
          ∃ after, runAsync bound settings budget e env w = some (s, after)) := by
  have alone := Config.alone_awaited positive owned untimed e env
  refine ⟨?_, ?_, ?_, ?_, ?_⟩
  · intro v
    refine reported_by checked alone rfl ?_
    intro other last rests settled
    cases other with
    | returned owner value =>
        cases settled
        rw [rests.owner owner v rfl]
    | _ => cases settled
  · refine reported_by checked alone rfl ?_
    intro other last rests settled
    cases other with
    | halted => rfl
    | _ => cases settled
  · intro cause
    refine reported_by checked alone rfl ?_
    intro other last rests settled
    cases other with
    | failed cause' =>
        cases settled
        rfl
    | _ => cases settled
  · intro bound s after ran
    obtain ⟨endings, ending, last, course, settled⟩ := (reported_iff checked alone s).mp ⟨bound, after, ran⟩
    obtain ⟨asleep, rests, _⟩ := course.settles alone
    have unarmed : ending.armed = 0 := ending.armed_eq_zero_iff.mpr (by rw [settled]; rfl)
    refine ⟨endings, ending, last, course, settled, asleep, by rw [rests.pending, unarmed]; rfl, ?_⟩
    exact List.eq_nil_of_length_eq_zero (rests.timers.trans unarmed)
  · intro endings ending last course
    obtain ⟨_, rests, settles⟩ := course.settles alone
    have idle : last.timers = [] ↔ ending.armed = 0 := by
      rw [← List.length_eq_zero_iff, rests.timers]
    refine ⟨by rw [rests.pending, rests.timers], ?_, ?_⟩
    · rw [idle]
      cases ending <;> simp [Ending.armed]
    · intro none
      obtain ⟨s, settled⟩ := Option.isSome_iff_exists.mp (ending.armed_eq_zero_iff.mp (idle.mp none))
      obtain ⟨need, follows⟩ := settles s settled
      refine ⟨s, need, settled, ?_⟩
      intro bound enough
      exact ⟨_, by rw [runAsync_follow checked, follows bound enough]; rfl⟩

def sleeperThenSeven : Expr := .prog [.call (.var "sleep") [.num 5], .num 7]

theorem sleeper_reports_its_value :
    ∃ endings last bound after,
      Course (.awaited 1 sleeperThenSeven ⟨0, []⟩ (.rooted .cps #[])) (endings ++ [.returned 0 (.num 7)]) last ∧
      (∀ x ∈ endings, x = .suspended) ∧ last.timers = [] ∧
      runAsync bound ⟨200, false⟩ (some 1) sleeperThenSeven ⟨0, []⟩ (.rooted .cps #[]) =
        some (.ok (some (.num 7)), after) := by
  obtain ⟨returns, _⟩ := awaited_run_reports_its_executions ⟨200, false⟩ (some 1) 1 rfl (by decide)
    sleeperThenSeven ⟨0, []⟩ (.rooted .cps #[]) (World.owned_rooted #[] 0) rfl
  obtain ⟨last, course, untimed⟩ : ∃ last,
      Course (.awaited 1 sleeperThenSeven ⟨0, []⟩ (.rooted .cps #[])) ([.suspended] ++ [.returned 0 (.num 7)])
        last ∧ last.timers = [] :=
    ⟨_, .resumed (i := 0) 60 rfl rfl (.first 60 rfl), rfl⟩
  obtain ⟨bound, after, ran⟩ := (returns (.num 7)).mpr ⟨_, _, course⟩
  exact ⟨_, _, bound, after, course, by simp, untimed, ran⟩

end Trampoline

import Trampoline.Proofs.Awaiting
import Trampoline.Proofs.HostStack

set_option autoImplicit false

namespace Trampoline

namespace Config

def Blocked (c : Config) : Prop :=
  ∃ owner point, c.call.checkpoint? = some (owner, point) ∧ c.world.canSpend owner = false

-- The call at hand finds the budget of another machine used up than that of the driver, and comes back as it is.
def Stalled (c : Config) : Prop :=
  ∃ owner point, owner ≠ c.driver ∧ c.call.checkpoint? = some (owner, point) ∧
    c.world.canSpend owner = false

inductive ReachesAfter (s : Config) : Nat → Config → Prop where
  | start : ReachesAfter s 0 s
  | call {passed : Nat} {c d : Config} :
      ReachesAfter s passed c → ¬ c.Blocked → c.step = .next d → ReachesAfter s (passed + c.call.checks) d
  | bounce {passed : Nat} {c d : Config} :
      ReachesAfter s passed c → c.Blocked → c.step = .next d → ReachesAfter s passed d

theorem Stalled.blocked {c : Config} (stalled : c.Stalled) : c.Blocked := by
  obtain ⟨owner, point, _, check, spent⟩ := stalled
  exact ⟨owner, point, check, spent⟩

end Config

theorem World.canSpend_refill_other (w : World) {m owner : MachineId} (other : owner ≠ m) :
    (w.refill m).canSpend owner = w.canSpend owner := by
  unfold canSpend refill machine? updateMachine
  rw [Array.getElem?_modify, if_neg (Ne.symm other)]

namespace Config

def bounced (c : Config) : Config := ⟨c.driver, c.legs + 1, c.call, c.world.refill c.driver⟩

theorem step_blocked {c : Config} (blocked : c.Blocked) : c.step = .next c.bounced := by
  obtain ⟨driver, legs, call, w⟩ := c
  obtain ⟨owner, point, check, spent⟩ := blocked
  have check : call.checkpoint? = some (owner, point) := check
  have spent : ¬ w.canSpend owner = true := by simpa using spent
  simp only [step, check, if_neg spent]
  rfl

theorem step_clear {c : Config} (clear : ¬ c.Blocked) :
    ∃ u, (u = c.world ∨ ∃ owner, u = c.world.spend owner) ∧
      c.step = advance c.driver c.legs (c.call.perform u) := by
  obtain ⟨driver, legs, call, w⟩ := c
  cases check : call.checkpoint? with
  | none => exact ⟨w, .inl rfl, by simp only [step, check]⟩
  | some spending =>
      obtain ⟨owner, point⟩ := spending
      by_cases affordable : w.canSpend owner = true
      · exact ⟨w.spend owner, .inr ⟨owner, rfl⟩, by simp only [step, check, if_pos affordable]⟩
      · exact absurd ⟨owner, point, check, by simpa using affordable⟩ clear

theorem legs_clear {c d : Config} (clear : ¬ c.Blocked) (next : c.step = .next d) : d.legs = c.legs := by
  obtain ⟨u, _, stepped⟩ := step_clear clear
  rw [stepped] at next
  cases result : c.call.perform u with
  | call call' w' =>
      rw [result] at next
      cases next
      rfl
  | ended e w' =>
      obtain ⟨after, finished, _⟩ := finish_ended c.driver c.legs e w'
      rw [result, advance, finished] at next
      cases next

theorem stalled_bounced {c : Config} (stalled : c.Stalled) : c.bounced.Stalled := by
  obtain ⟨owner, point, other, check, spent⟩ := stalled
  exact ⟨owner, point, other, check, (c.world.canSpend_refill_other other).trans spent⟩

theorem clear_bounced {c : Config} (positive : c.world.CanRefill c.driver) (free : ¬ c.Stalled) :
    ¬ c.bounced.Blocked := by
  rintro ⟨owner, point, check, spent⟩
  have spent : (c.world.refill c.driver).canSpend owner = false := spent
  by_cases own : owner = c.driver
  · rw [own, c.world.canSpend_refill c.driver positive] at spent
    cases spent
  · rw [c.world.canSpend_refill_other own] at spent
    exact free ⟨owner, point, own, check, spent⟩

theorem positive_awaited {B : Nat} (positive : 0 < B) (e : Expr) (env : Env) (w : World) :
    (awaited B e env w).world.CanRefill (awaited B e env w).driver := by
  have added := w.machine?_addMachine B .running
  have sameCounts := World.sameCounts_refill (w.addMachine B .running).2 w.machines.size
  intro budget found
  have found : ((w.addMachine B .running).2.refill w.machines.size).budgets[w.machines.size]? = some budget :=
    found
  rw [sameCounts.budgets, World.getElem?_budgets, added] at found
  cases found
  exact positive

theorem positive_next {c d : Config} (positive : c.world.CanRefill c.driver) (next : c.step = .next d) :
    d.world.CanRefill d.driver := by
  rw [(step_next_quiet c d next).1]
  exact World.canRefill_congr positive (sameCounts_next c d next).budgets

theorem positive_reaches {c d : Config} (positive : c.world.CanRefill c.driver) (reaches : c.Reaches d) :
    d.world.CanRefill d.driver := by
  induction reaches with
  | refl => exact positive
  | tail _ next ih => exact positive_next ih next

theorem blocked_again_iff {d e : Config} (positive : d.world.CanRefill d.driver) (blocked : d.Blocked)
    (next : d.step = .next e) : e.Blocked ↔ d.Stalled := by
  cases next.symm.trans (step_blocked blocked)
  constructor
  · intro again
    by_cases stalled : d.Stalled
    · exact stalled
    · exact absurd again (clear_bounced positive stalled)
  · intro stalled
    exact (stalled_bounced stalled).blocked

-- Each leg after the first begins with a check that is passed, unless the call is stalled for good.
theorem legs_passes {s c : Config} {passed : Nat} (positive : s.world.CanRefill s.driver)
    (passes : s.ReachesAfter passed c) :
    c.world.CanRefill c.driver ∧ (c.Stalled ∨ c.legs ≤ s.legs + passed ∨
      (c.legs ≤ s.legs + passed + 1 ∧ ¬ c.Blocked ∧ c.call.checks = 1)) := by
  induction passes with
  | start => exact ⟨positive, .inr (.inl (Nat.le_refl _))⟩
  | @call passed c d _ clear next ih =>
      obtain ⟨positive, held⟩ := ih
      have same := legs_clear clear next
      refine ⟨positive_next positive next, .inr (.inl ?_)⟩
      rcases held with stalled | few | ⟨few, _, one⟩
      · exact absurd stalled.blocked clear
      · omega
      · omega
  | @bounce passed c d _ blocked next ih =>
      obtain ⟨positive, held⟩ := ih
      refine ⟨positive_next positive next, ?_⟩
      cases next.symm.trans (step_blocked blocked)
      by_cases stalled : c.Stalled
      · exact .inl (stalled_bounced stalled)
      · obtain ⟨owner, point, check, _⟩ := blocked
        have one : c.call.checks = 1 := by simp [Call.checks, check]
        rcases held with stopped | few | ⟨_, clear, _⟩
        · exact absurd stopped stalled
        · exact .inr (.inr ⟨Nat.succ_le_succ few, clear_bounced positive stalled, one⟩)
        · exact absurd ⟨owner, point, check, by assumption⟩ clear

theorem drive_stalled (bound : Nat) (c : Config) (stalled : c.Stalled) : drive bound c = none := by
  induction bound generalizing c with
  | zero => rfl
  | succ bound ih =>
      rw [drive, step_blocked stalled.blocked]
      exact ih c.bounced (stalled_bounced stalled)

theorem drive_reaches_stalled (bound : Nat) {c d : Config} (reaches : c.Reaches d) (stalled : d.Stalled) :
    drive bound c = none := by
  induction reaches using Relation.ReflTransGen.head_induction_on generalizing bound with
  | refl => exact drive_stalled bound d stalled
  | head next _ ih =>
      cases bound with
      | zero => rfl
      | succ bound =>
          rw [drive, next]
          exact ih bound

theorem performs_unless_stalled (c : Config) (positive : c.world.CanRefill c.driver) (free : ¬ c.Stalled) :
    ∃ d u, c.Reaches d ∧ u.quiet = c.world.quiet ∧
      d.step = advance c.driver d.legs (c.call.perform u) := by
  by_cases blocked : c.Blocked
  · obtain ⟨u, paid, stepped⟩ := step_clear (clear_bounced positive free)
    refine ⟨c.bounced, u, .single (step_blocked blocked), ?_, stepped⟩
    exact (quiet_paid paid).trans (World.quiet_refill c.world c.driver)
  · obtain ⟨u, paid, stepped⟩ := step_clear blocked
    exact ⟨c, u, .refl, quiet_paid paid, stepped⟩

theorem drive_of_flow (bound : Nat) (c : Config) (r : Ending × World)
    (positive : c.world.CanRefill c.driver) (free : ∀ d, c.Reaches d → ¬ d.Stalled)
    (flows : c.call.flow bound c.world.quiet = some r) : ∃ need last, drive need c = some last := by
  induction bound generalizing c with
  | zero => cases flows
  | succ bound ih =>
      obtain ⟨d, u, reaches, same, stepped⟩ := performs_unless_stalled c positive (free c .refl)
      have performed := Call.perform_quiet c.call u
      rw [same] at performed
      cases result : c.call.perform u with
      | ended e w' =>
          obtain ⟨after, finished, _⟩ := finish_ended c.driver d.legs e w'
          rw [result, advance, finished] at stepped
          obtain ⟨need, driven⟩ := drive_of_reaches reaches stepped
          exact ⟨need, _, driven⟩
      | call call' w' =>
          rw [result] at performed stepped
          rw [Call.flow_call performed] at flows
          have onward : c.Reaches ⟨c.driver, d.legs, call', w'⟩ := reaches.tail stepped
          obtain ⟨need, last, driven⟩ := ih ⟨c.driver, d.legs, call', w'⟩ (positive_reaches positive onward)
            (fun e later => free e (onward.trans later)) flows
          obtain ⟨f, toEnd, ended⟩ := reaches_of_drive need _ last.1 last.2 driven
          obtain ⟨need', driven'⟩ := drive_of_reaches (onward.trans toEnd) ended
          exact ⟨need', _, driven'⟩

end Config

-- An execution of any driver with a positive budget. A call that was sent back comes straight back
-- exactly if it spends the budget of another machine; an execution that ends has no more legs after its
-- first than checks passed; it goes on for ever exactly if the program does or some call is stalled; and
-- a driver that owns all that it runs is never stalled.
theorem driver_stalls_only_on_foreign_budgets (c : Config) (positive : c.world.CanRefill c.driver) :
    (∀ d e, c.Reaches d → d.Blocked → d.step = .next e → (e.Blocked ↔ d.Stalled)) ∧
    (∀ passed d e w, c.ReachesAfter passed d → d.step = .ended e w →
      d.legs ≤ c.legs + (passed + d.call.checks)) ∧
    ((∀ bound, drive bound c = none) ↔
      (∀ bound, c.call.flow bound c.world.quiet = none) ∨ ∃ d, c.Reaches d ∧ d.Stalled) ∧
    (c.Ready → ∀ d, c.Reaches d → ¬ d.Stalled) := by
  refine ⟨?_, ?_, ⟨?_, ?_⟩, ?_⟩
  · intro d e reaches blocked next
    exact Config.blocked_again_iff (Config.positive_reaches positive reaches) blocked next
  · intro passed d e w passes ended
    rcases (Config.legs_passes positive passes).2 with stalled | few | ⟨few, _, one⟩
    · cases ended.symm.trans (Config.step_blocked stalled.blocked)
    · omega
    · omega
  · intro endless
    by_cases stalls : ∃ d, c.Reaches d ∧ d.Stalled
    · exact .inr stalls
    · left
      intro bound
      cases flows : c.call.flow bound c.world.quiet with
      | none => rfl
      | some r =>
          obtain ⟨need, last, driven⟩ := Config.drive_of_flow bound c r positive
            (fun d reaches stalled => stalls ⟨d, reaches, stalled⟩) flows
          cases (endless need).symm.trans driven
  · rintro (endless | ⟨d, reaches, stalled⟩) bound
    · cases driven : drive bound c with
      | none => rfl
      | some r =>
          have flows := Config.flow_of_drive bound c r.1 r.2 driven
          cases (endless bound).symm.trans flows
    · exact Config.drive_reaches_stalled bound reaches stalled
  · rintro ready d reaches ⟨owner, point, other, check, _⟩
    obtain ⟨stillReady, _⟩ := Config.ready_reaches c d ready reaches
    exact other (checkpoint_owner d.driver owner point d.call stillReady.call check)

def keeper : Expr :=
  .prog [.assign (.var "saved") (.bool false), .call (.var "call/cc")
    [.lambda ["k"] (.prog [.assign (.var "saved") (.var "k"), .num 1]) none]]

def caller : Expr := .prog [.call (.var "saved") [.num 5]]

theorem kept_continuation_stalls :
    ∃ v w, runAsync 60 ⟨200, false⟩ (some 1) keeper ⟨0, []⟩ (.rooted .cps #[]) = some (.ok (some v), w) ∧
      (∃ d, (Config.awaited 200 caller ⟨0, []⟩ w).Reaches d ∧ d.Stalled) ∧
      ((Config.awaited 200 caller ⟨0, []⟩ w).call.flow 20
        (Config.awaited 200 caller ⟨0, []⟩ w).world.quiet).isSome = true := by
  refine ⟨_, _, rfl, ?_, ?_⟩
  · refine ⟨_, .head rfl (.head rfl (.head rfl (.head rfl (.head rfl (.head rfl (.head rfl (.head rfl (.head rfl
      (.single rfl))))))))), ?_⟩
    exact ⟨0, .item, by decide, rfl, rfl⟩
  · rfl

theorem caller_stalls_and_never_ends :
    ∃ w, (Config.awaited 200 caller ⟨0, []⟩ w).world.CanRefill (Config.awaited 200 caller ⟨0, []⟩ w).driver ∧
      (∃ d, (Config.awaited 200 caller ⟨0, []⟩ w).Reaches d ∧ d.Stalled) ∧
      ∀ bound, drive bound (.awaited 200 caller ⟨0, []⟩ w) = none := by
  obtain ⟨_, w, _, stalls, _⟩ := kept_continuation_stalls
  have positive := Config.positive_awaited (by decide : 0 < 200) caller ⟨0, []⟩ w
  obtain ⟨_, _, endless, _⟩ := driver_stalls_only_on_foreign_budgets _ positive
  exact ⟨w, positive, stalls, endless.mpr (.inr stalls)⟩

-- Two programs, one after the other in one root and each on a machine of its own. The second one has an
-- end, but its driver sends one and the same call back for ever.
theorem kept_continuation_blocks_its_caller :
    ∃ v w, runAsync 60 ⟨200, false⟩ (some 1) keeper ⟨0, []⟩ (.rooted .cps #[]) = some (.ok (some v), w) ∧
      ((Config.awaited 200 caller ⟨0, []⟩ w).call.flow 20
        (Config.awaited 200 caller ⟨0, []⟩ w).world.quiet).isSome = true ∧
      (∃ d e, (Config.awaited 200 caller ⟨0, []⟩ w).Reaches d ∧ d.Blocked ∧ d.step = .next e ∧ e.Blocked) ∧
      ∀ bound, runAsync bound ⟨200, false⟩ none caller ⟨0, []⟩ w = none := by
  obtain ⟨v, w, ran, ⟨d, reaches, stalled⟩, flows⟩ := kept_continuation_stalls
  refine ⟨v, w, ran, flows, ⟨d, d.bounced, reaches, stalled.blocked, ?_, ?_⟩, ?_⟩
  · exact Config.step_blocked stalled.blocked
  · exact (Config.stalled_bounced stalled).blocked
  · intro bound
    have endless := Config.drive_reaches_stalled bound reaches stalled
    rw [runAsync_follow (B := 200) rfl, follow, endless]
    rfl

end Trampoline

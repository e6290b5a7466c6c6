import Mathlib.Logic.Relation
import Trampoline.Proofs.Ownership
import Trampoline.Proofs.Quiet

set_option autoImplicit false

namespace Trampoline

namespace Call

def flow : Nat → Call → World → Option (Ending × World)
  | 0, _, _ => none
  | bound + 1, c, w =>
      match c.perform w with
      | .call c w => flow bound c w
      | .ended e w => some (e, w)

abbrev Leads : Call × World → Call × World → Prop :=
  Relation.ReflTransGen fun s t => s.1.perform s.2 = .call t.1 t.2

theorem flow_call {c c' : Call} {w w' : World} (made : c.perform w = .call c' w') (bound : Nat) :
    c.flow (bound + 1) w = c'.flow bound w' := by
  simp only [flow, made]

theorem flow_mono (bound : Nat) (c : Call) (w : World) (r : Ending × World)
    (ended : c.flow bound w = some r) : c.flow (bound + 1) w = some r := by
  induction bound generalizing c w with
  | zero => cases ended
  | succ bound ih =>
      rw [flow] at ended ⊢
      split at ended
      · exact ih _ _ ended
      · exact ended

theorem leads_unfinished (bound : Nat) {s t : Call × World} (leads : Leads s t)
    (later : t.1.flow bound t.2 = none) : s.1.flow bound s.2 = none := by
  induction leads using Relation.ReflTransGen.head_induction_on with
  | refl => exact later
  | @head before _ made _ ih =>
      rw [← flow_call made] at ih
      cases found : before.1.flow bound before.2 with
      | none => rfl
      | some r =>
          rw [flow_mono bound before.1 before.2 r found] at ih
          cases ih

end Call

abbrev Config.Reaches : Config → Config → Prop :=
  Relation.ReflTransGen fun c d => c.step = .next d

namespace Config

theorem drive_of_reaches {c d : Config} {e : Ending} {w : World} (reaches : c.Reaches d)
    (ended : d.step = .ended e w) : ∃ bound, drive bound c = some (e, w) := by
  induction reaches using Relation.ReflTransGen.head_induction_on with
  | refl => exact ⟨1, by simp only [drive, ended]⟩
  | head next _ ih =>
      obtain ⟨bound, driven⟩ := ih
      exact ⟨bound + 1, by simp only [drive, next, driven]⟩

theorem reaches_of_drive (bound : Nat) (c : Config) (e : Ending) (w : World)
    (driven : drive bound c = some (e, w)) : ∃ d, c.Reaches d ∧ d.step = .ended e w := by
  induction bound generalizing c with
  | zero => cases driven
  | succ bound ih =>
      rw [drive] at driven
      split at driven
      · rename_i next stepped
        obtain ⟨d, reaches, ended⟩ := ih next driven
        exact ⟨d, .head stepped reaches, ended⟩
      · rename_i stepped
        cases driven
        exact ⟨c, .refl, stepped⟩

end Config

theorem drive_mono (bound : Nat) (c : Config) (r : Ending × World) (driven : drive bound c = some r)
    (more : Nat) (enough : bound ≤ more) : drive more c = some r := by
  induction bound generalizing c more with
  | zero => cases driven
  | succ bound ih =>
      obtain ⟨more, rfl⟩ : ∃ rest, more = rest + 1 := ⟨more - 1, by omega⟩
      rw [drive] at driven ⊢
      split at driven
      · exact ih _ driven more (by omega)
      · exact driven

theorem drive_unique (bound bound' : Nat) (c : Config) (r r' : Ending × World)
    (driven : drive bound c = some r) (driven' : drive bound' c = some r') : r = r' := by
  have first := drive_mono bound c r driven (max bound bound') (Nat.le_max_left _ _)
  have second := drive_mono bound' c r' driven' (max bound bound') (Nat.le_max_right _ _)
  exact Option.some.inj (first.symm.trans second)

namespace Config

-- A step either makes the call at hand, on a world that differs in counters only, or bounces.
theorem step_cases (m : MachineId) (legs : Nat) (c : Call) (w : World) :
    step ⟨m, legs, c, w⟩ = .next ⟨m, legs + 1, c, w.refill m⟩ ∨
      ∃ u, (u = w ∨ ∃ owner, u = w.spend owner) ∧
        step ⟨m, legs, c, w⟩ = advance m legs (c.perform u) := by
  simp only [step]
  split
  · exact .inr ⟨w, .inl rfl, rfl⟩
  · rename_i owner _ _
    split
    · exact .inr ⟨w.spend owner, .inr ⟨owner, rfl⟩, rfl⟩
    · exact .inl rfl

theorem quiet_paid {w u : World} (paid : u = w ∨ ∃ owner, u = w.spend owner) :
    u.quiet = w.quiet := by
  rcases paid with rfl | ⟨owner, rfl⟩
  · rfl
  · exact World.quiet_spend w owner

theorem finish_ended (m : MachineId) (legs : Nat) (e : Ending) (w : World) :
    ∃ after, finish m legs e w = .ended e after ∧ after.quiet = w.quiet := by
  cases e with
  | failed cause => exact ⟨w, rfl, rfl⟩
  | _ => exact ⟨w.countLegs m legs, rfl, World.quiet_countLegs w m legs⟩

theorem finish_keeps (m : MachineId) (legs : Nat) (e e' : Ending) (w after : World)
    (finished : finish m legs e w = .ended e' after) :
    after.store = w.store ∧ after.timers = w.timers ∧ after.budgets = w.budgets := by
  cases e with
  | failed cause =>
      cases finished
      exact ⟨rfl, rfl, rfl⟩
  | _ =>
      cases finished
      refine ⟨?_, ?_, World.budgets_countLegs w m legs⟩
      · unfold World.countLegs
        split <;> rfl
      · unfold World.countLegs
        split <;> rfl

theorem step_next_quiet (c d : Config) (next : c.step = .next d) :
    d.driver = c.driver ∧ ((d.call = c.call ∧ d.world.quiet = c.world.quiet) ∨
      c.call.perform c.world.quiet = .call d.call d.world.quiet) := by
  obtain ⟨m, legs, call, w⟩ := c
  rcases step_cases m legs call w with bounced | ⟨u, paid, performed⟩
  · cases next.symm.trans bounced
    exact ⟨rfl, .inl ⟨rfl, World.quiet_refill w m⟩⟩
  · rw [performed] at next
    have same := Call.perform_quiet call u
    rw [quiet_paid paid] at same
    cases result : call.perform u with
    | call call' w' =>
        rw [result] at next same
        cases next
        exact ⟨rfl, .inr same⟩
    | ended e w' =>
        obtain ⟨after, finished, _⟩ := finish_ended m legs e w'
        rw [result, advance, finished] at next
        cases next

theorem step_ended_quiet (c : Config) (e : Ending) (w : World) (ended : c.step = .ended e w) :
    c.call.perform c.world.quiet = .ended e w.quiet := by
  obtain ⟨m, legs, call, u⟩ := c
  rcases step_cases m legs call u with bounced | ⟨v, paid, performed⟩
  · cases ended.symm.trans bounced
  · rw [performed] at ended
    have same := Call.perform_quiet call v
    rw [quiet_paid paid] at same
    cases result : call.perform v with
    | call call' w' =>
        rw [result] at ended
        cases ended
    | ended e' w' =>
        obtain ⟨after, finished, view⟩ := finish_ended m legs e' w'
        rw [result, advance, finished] at ended
        cases ended
        rw [view, same, result]
        rfl

def view (c : Config) : Call × World := (c.call, c.world.quiet)

theorem reaches_leads (c d : Config) (reaches : c.Reaches d) : Call.Leads c.view d.view := by
  induction reaches with
  | refl => exact .refl
  | @tail before after _ next ih =>
      rcases (step_next_quiet before after next).2 with ⟨sameCall, sameWorld⟩ | made
      · have still : after.view = before.view := Prod.ext sameCall sameWorld
        exact still ▸ ih
      · exact ih.tail made

theorem flow_of_drive (bound : Nat) (c : Config) (e : Ending) (w : World)
    (driven : drive bound c = some (e, w)) :
    c.call.flow bound c.world.quiet = some (e, w.quiet) := by
  induction bound generalizing c with
  | zero => cases driven
  | succ bound ih =>
      rw [drive] at driven
      split at driven
      · rename_i d next
        have ended := ih d driven
        rcases (step_next_quiet c d next).2 with ⟨sameCall, sameWorld⟩ | made
        · rw [sameCall, sameWorld] at ended
          exact Call.flow_mono bound _ _ _ ended
        · rw [Call.flow_call made, ended]
      · rename_i stepped
        cases driven
        simp only [Call.flow, step_ended_quiet c e w stepped]

end Config

def Event.outcome? : Event → Option (Except Failure Value)
  | .result v => some (.ok v)
  | .failed cause => some (.error cause)
  | .raised cause => some (.error cause)
  | _ => none

def World.outcomes (w : World) : List (Except Failure Value) :=
  w.trace.toList.filterMap Event.outcome?

theorem World.outcomes_note (w : World) (event : Event) :
    (w.note event).outcomes = w.outcomes ++ event.outcome?.toList := by
  unfold outcomes note
  rw [Array.toList_push, List.filterMap_append]
  cases told : event.outcome? <;> simp [List.filterMap, told]

theorem World.outcomes_writeLine (w : World) (env : Env) (text : String) :
    (w.writeLine env text).outcomes = w.outcomes := by
  rw [writeLine, outcomes_note]
  exact List.append_nil _

def Ending.isPlain : Ending → Bool
  | .halted => true
  | .failed .loopClosed => false
  | .failed _ => true
  | _ => false

theorem Ending.plain_operator {symbol : String} {cause : Failure}
    (failure : OperatorFailure symbol cause) : (Ending.failed cause).isPlain = true := by
  cases failure <;> rfl

inductive Call.Act (c : Call) (w : World) : Next → Prop where
  | goes {c' : Call} {w' : World} (machines : w'.machines = w.machines)
      (timers : w'.timers = w.timers) (outcomes : w'.outcomes = w.outcomes) : Act c w (.call c' w')
  | returns {m : MachineId} {k : Kont} {v : Value} (final : c = .resume (.final m :: k) v) :
      Act c w (.ended (.returned m v) w)
  | stops (e : Ending) (plain : e.isPlain = true) : Act c w (.ended e w)
  | sleeps {m : MachineId} {func : Value} {args : List Value} {env : Env} {k : Kont} {next : Next}
      (sleep : c = .apply m func args env k) (milliseconds : Float)
      (armed : w.arm m milliseconds k .no = next) : Act c w next

namespace Call

theorem perform_act (c : Call) (w : World) : Act c w (c.perform w) := by
  cases c with
  | evaluate m e env k =>
      cases e with
      | var name =>
          simp only [perform, evaluateExpr]
          split
          · exact .goes rfl rfl rfl
          · exact .stops _ rfl
      | assign target value =>
          cases target with
          | var name => exact .goes rfl rfl rfl
          | _ => exact .stops _ rfl
      | lambda params body name =>
          simp only [perform, evaluateExpr, World.makeClosure, World.fresh]
          split
          · exact .goes rfl rfl rfl
          · exact .goes rfl rfl rfl
      | hole | binding => exact .stops _ rfl
      | _ => exact .goes rfl rfl rfl
  | items m last rest env k => cases rest <;> exact .goes rfl rfl rfl
  | arguments m func done rest env k => cases rest <;> exact .goes rfl rfl rfl
  | bindings m rest body env k =>
      cases rest with
      | nil => exact .goes rfl rfl rfl
      | cons b rest =>
          obtain ⟨name, init⟩ := b
          simp only [perform, nextBinding]
          split <;> exact .goes rfl rfl rfl
  | enter m closure args k => exact .goes rfl rfl rfl
  | apply m func args env k =>
      cases func with
      | builtin b =>
          obtain ⟨name, mode, action, stamp⟩ := b
          cases mode with
          | sync => exact .stops _ rfl
          | cps =>
              cases action with
              | print => exact .goes rfl rfl (World.outcomes_writeLine w env _)
              | halt => exact .stops _ rfl
              | sleep =>
                  simp only [perform, applyValue, applyBuiltin]
                  split
                  · exact .sleeps rfl _ rfl
                  · rename_i cause failure
                    have number : OperatorFailure "" cause := toNumber_error failure
                    exact .stops _ (Ending.plain_operator number)
              | _ => exact .goes rfl rfl rfl
      | closure c => exact .goes rfl rfl rfl
      | continuation stamp frames => exact .goes rfl rfl rfl
      | _ => exact .stops _ rfl
  | resume k v =>
      cases k with
      | nil => exact .stops _ rfl
      | cons frame k =>
          cases frame with
          | final => exact .returns rfl
          | assign m name env =>
              simp only [perform, resumeFrame]
              split
              · exact .goes rfl rfl rfl
              · exact .stops _ rfl
          | right m op left =>
              simp only [perform, resumeFrame]
              split
              · exact .goes rfl rfl rfl
              · rename_i cause failure
                exact .stops _ (Ending.plain_operator (applyOperator_error op left v cause failure))
          | branch m yes no env =>
              simp only [perform, resumeFrame]
              split
              · exact .goes rfl rfl rfl
              · split <;> exact .goes rfl rfl rfl
          | timed start env => exact .goes rfl rfl (World.outcomes_writeLine _ env _)
          | _ => exact .goes rfl rfl rfl

end Call

def World.CanRefill (w : World) (m : MachineId) : Prop :=
  ∀ budget, w.budgets[m]? = some budget → 0 < budget

theorem World.canSpend_refill (w : World) (m : MachineId) (positive : w.CanRefill m) :
    (w.refill m).canSpend m = true := by
  unfold canSpend refill machine? updateMachine
  rw [Array.getElem?_modify, if_pos rfl]
  cases found : w.machines[m]? with
  | none => rfl
  | some machine =>
      have enough := positive machine.budget (by simp [budgets, found])
      simpa using enough

theorem World.canRefill_congr {w u : World} {m : MachineId} (positive : w.CanRefill m)
    (budgets : u.budgets = w.budgets) : u.CanRefill m := by
  intro budget found
  exact positive budget (budgets ▸ found)

theorem World.canRefill_rooted {mode : Mode} (machine : Machine) (positive : 0 < machine.budget) :
    (rooted mode #[machine]).CanRefill 0 := by
  intro budget found
  simp [budgets, rooted, root] at found
  exact found ▸ positive

namespace Config

-- The driver owns all that it runs, and its budget is positive.
structure Ready (c : Config) : Prop where
  call : c.call.OwnedBy c.driver
  store : c.world.store.OwnedBy c.driver
  positive : c.world.CanRefill c.driver

theorem ready_start {m : MachineId} {w : World} (store : w.store.OwnedBy m)
    (positive : w.CanRefill m) (c : Call) (owned : c.OwnedBy m) : (start m c w).Ready :=
  ⟨owned, store,
    World.canRefill_congr positive (World.budgets_updateMachine w m _ fun _ => rfl)⟩

theorem ready_ofProgram {m : MachineId} {w : World} (store : w.store.OwnedBy m)
    (positive : w.CanRefill m) (e : Expr) (env : Env) : (ofProgram m e env w).Ready :=
  ready_start store positive _ ⟨rfl, rfl, trivial⟩

theorem ready_paid {m : MachineId} {legs : Nat} {c : Call} {w u : World}
    (ready : Ready ⟨m, legs, c, w⟩) (paid : u = w ∨ ∃ owner, u = w.spend owner) :
    Ready ⟨m, legs, c, u⟩ := by
  rcases paid with rfl | ⟨owner, rfl⟩
  · exact ready
  · exact ⟨ready.call, ready.store,
      World.canRefill_congr ready.positive (World.budgets_updateMachine w owner _ fun _ => rfl)⟩

theorem ready_refilled {m : MachineId} {legs : Nat} {c : Call} {w : World}
    (ready : Ready ⟨m, legs, c, w⟩) : Ready ⟨m, legs + 1, c, w.refill m⟩ :=
  ⟨ready.call, ready.store,
    World.canRefill_congr ready.positive (World.budgets_updateMachine w m _ fun _ => rfl)⟩

theorem ready_next (c d : Config) (ready : c.Ready) (next : c.step = .next d) :
    d.Ready ∧ d.driver = c.driver ∧ d.world.timers = c.world.timers := by
  obtain ⟨m, legs, call, w⟩ := c
  rcases step_cases m legs call w with bounced | ⟨u, paid, performed⟩
  · cases next.symm.trans bounced
    exact ⟨ready_refilled ready, rfl, rfl⟩
  · have before := ready_paid ready paid
    have owned := Call.perform_owned call u before.call before.store
    have act := Call.perform_act call u
    rw [performed] at next
    cases result : call.perform u with
    | call call' w' =>
        rw [result] at next owned act
        cases next
        cases act with
        | goes machines timers _ =>
            have budgets : w'.budgets = u.budgets := congrArg (Array.map Machine.budget) machines
            refine ⟨⟨owned.1, owned.2, World.canRefill_congr before.positive budgets⟩, rfl, ?_⟩
            rcases paid with rfl | ⟨owner, rfl⟩
            · exact timers
            · exact timers
        | sleeps sleep milliseconds armed =>
            obtain ⟨e, after, ended, _⟩ := World.arm_ended u _ milliseconds _ .no
            cases armed.symm.trans ended
    | ended e w' =>
        obtain ⟨after, finished, _⟩ := finish_ended m legs e w'
        rw [result, advance, finished] at next
        cases next

theorem ready_reaches (c d : Config) (ready : c.Ready) (reaches : c.Reaches d) :
    d.Ready ∧ d.driver = c.driver ∧ d.world.timers = c.world.timers := by
  induction reaches with
  | refl => exact ⟨ready, rfl, rfl⟩
  | @tail before after _ next ih =>
      obtain ⟨stillReady, sameDriver, sameTimers⟩ := ready_next before after ih.1 next
      exact ⟨stillReady, sameDriver.trans ih.2.1, sameTimers.trans ih.2.2⟩

theorem ready_ended (c : Config) (e : Ending) (after : World) (ready : c.Ready)
    (ended : c.step = .ended e after) :
    after.store.OwnedBy c.driver ∧ after.CanRefill c.driver ∧
      ∃ new, after.timers = c.world.timers ++ new ∧ ∀ t ∈ new, t.OwnedBy c.driver := by
  obtain ⟨m, legs, call, w⟩ := c
  rcases step_cases m legs call w with bounced | ⟨u, paid, performed⟩
  · cases ended.symm.trans bounced
  · have before := ready_paid ready paid
    have owned := Call.perform_owned call u before.call before.store
    have act := Call.perform_act call u
    rw [performed] at ended
    cases result : call.perform u with
    | call call' w' =>
        rw [result] at ended
        cases ended
    | ended e' w' =>
        rw [result] at ended owned act
        obtain ⟨store, timers, budgets⟩ := finish_keeps m legs e' e w' after ended
        have sameTimers : u.timers = w.timers := by
          rcases paid with rfl | ⟨owner, rfl⟩ <;> rfl
        rw [store, timers, ← sameTimers]
        cases act with
        | stops | returns =>
            exact ⟨owned, World.canRefill_congr before.positive budgets, [], by simp, by simp⟩
        | @sleeps owner func args env k _ sleep milliseconds armed =>
            subst sleep
            obtain ⟨rfl, _, _, frames⟩ := before.call
            obtain ⟨e₁, after₁, armed₁, _, kept⟩ := World.arm_ended u owner milliseconds k .no
            cases armed.symm.trans armed₁
            refine ⟨owned, World.canRefill_congr before.positive
              (budgets.trans (World.budgets_arm armed)), ?_⟩
            rcases kept with same | ⟨due, one⟩
            · exact ⟨[], by simp [same], by simp⟩
            · exact ⟨_, one, List.forall_mem_singleton.mpr ⟨rfl, frames, trivial⟩⟩

theorem ready_performs (c : Config) (ready : c.Ready) :
    ∃ d u, c.Reaches d ∧ d.view = c.view ∧ u.quiet = c.world.quiet ∧
      d.step = advance c.driver d.legs (c.call.perform u) := by
  obtain ⟨m, legs, call, w⟩ := c
  cases check : call.checkpoint? with
  | none => exact ⟨_, w, .refl, rfl, rfl, by simp only [step, check]⟩
  | some spending =>
      obtain ⟨owner, point⟩ := spending
      cases checkpoint_owner m owner point call ready.call check
      by_cases affordable : w.canSpend m = true
      · refine ⟨_, w.spend m, .refl, rfl, World.quiet_spend w m, ?_⟩
        simp only [step, check, if_pos affordable]
      · refine ⟨⟨m, legs + 1, call, w.refill m⟩, (w.refill m).spend m, .single ?_, ?_, ?_, ?_⟩
        · simp only [step, check, if_neg affordable]
        · exact congrArg (Prod.mk call) (World.quiet_refill w m)
        · rw [World.quiet_spend, World.quiet_refill]
        · simp only [step, check, if_pos (World.canSpend_refill w m ready.positive)]

theorem leads_reaches (c : Config) (t : Call × World) (ready : c.Ready)
    (leads : Call.Leads c.view t) : ∃ d, c.Reaches d ∧ d.view = t := by
  induction leads with
  | refl => exact ⟨c, .refl, rfl⟩
  | @tail before after _ made ih =>
      obtain ⟨d, reaches, rfl⟩ := ih
      obtain ⟨b, u, bounced, _, same, stepped⟩ := ready_performs d (ready_reaches c d ready reaches).1
      have performed := Call.perform_quiet d.call u
      rw [same] at performed
      have agreed := made.symm.trans performed
      cases result : d.call.perform u with
      | ended e w' =>
          rw [result] at agreed
          cases agreed
      | call call' w' =>
          rw [result] at agreed stepped
          injection agreed with sameCall sameWorld
          exact ⟨_, (reaches.trans bounced).tail stepped, Prod.ext sameCall.symm sameWorld.symm⟩

theorem ready_ends (c : Config) (e : Ending) (q : World) (ready : c.Ready)
    (ended : c.call.perform c.world.quiet = .ended e q) :
    ∃ d after, c.Reaches d ∧ d.view = c.view ∧ d.step = .ended e after ∧ after.quiet = q := by
  obtain ⟨d, u, reaches, still, same, stepped⟩ := ready_performs c ready
  have performed := Call.perform_quiet c.call u
  rw [same] at performed
  have agreed := ended.symm.trans performed
  cases result : c.call.perform u with
  | call call' w' =>
      rw [result] at agreed
      cases agreed
  | ended e' w' =>
      rw [result] at agreed stepped
      injection agreed with sameEnding sameWorld
      obtain ⟨after, finished, view⟩ := finish_ended c.driver d.legs e' w'
      exact ⟨d, after, reaches, still, by rw [stepped, advance, finished, sameEnding],
        view.trans sameWorld.symm⟩

theorem ready_leads_ends (c : Config) (t : Call × World) (e : Ending) (ready : c.Ready)
    (leads : Call.Leads c.view t) (ended : t.1.perform t.2 = .ended e t.2) :
    ∃ need d after, c.Reaches d ∧ d.view = t ∧ d.step = .ended e after ∧ after.quiet = t.2 ∧
      ∀ bound, need ≤ bound → drive bound c = some (e, after) := by
  obtain ⟨b, toCall, rfl⟩ := leads_reaches c t ready leads
  obtain ⟨d, after, onward, still, stepped, quiet⟩ :=
    ready_ends b e b.world.quiet (ready_reaches c b ready toCall).1 ended
  obtain ⟨need, driven⟩ := drive_of_reaches (toCall.trans onward) stepped
  exact ⟨need, d, after, toCall.trans onward, still, stepped, quiet, drive_mono need c _ driven⟩

theorem same_view_reaches (c d c' : Config) (ready : d.Ready) (same : c.view = d.view)
    (reaches : c.Reaches c') : ∃ d', d.Reaches d' ∧ d'.view = c'.view :=
  leads_reaches d c'.view ready (same ▸ reaches_leads c c' reaches)

theorem same_view_drive (bound : Nat) (c d : Config) (e : Ending) (w : World) (ready : d.Ready)
    (same : c.view = d.view) (driven : drive bound c = some (e, w)) :
    ∃ bound' w', drive bound' d = some (e, w') ∧ w'.quiet = w.quiet := by
  obtain ⟨c', reaches, ended⟩ := reaches_of_drive bound c e w driven
  obtain ⟨d', reaches', view⟩ := same_view_reaches c d c' ready same reaches
  have free : d'.call.perform d'.world.quiet = .ended e w.quiet := by
    injection view with sameCall sameWorld
    rw [sameCall, sameWorld]
    exact step_ended_quiet c' e w ended
  obtain ⟨last, after, onward, _, stepped, quiet⟩ :=
    ready_ends d' e w.quiet (ready_reaches d d' ready reaches').1 free
  obtain ⟨bound', driven'⟩ := drive_of_reaches (reaches'.trans onward) stepped
  exact ⟨bound', after, driven', quiet⟩

theorem ready_drive (bound : Nat) (c : Config) (e : Ending) (after : World) (ready : c.Ready)
    (driven : drive bound c = some (e, after)) :
    after.store.OwnedBy c.driver ∧ after.CanRefill c.driver ∧
      ∃ new, after.timers = c.world.timers ++ new ∧ ∀ t ∈ new, t.OwnedBy c.driver := by
  obtain ⟨d, reaches, ended⟩ := reaches_of_drive bound c e after driven
  obtain ⟨stillReady, sameDriver, sameTimers⟩ := ready_reaches c d ready reaches
  rw [← sameDriver, ← sameTimers]
  exact ready_ended d e after stillReady ended

end Config

end Trampoline

import Trampoline.Proofs.Schedule

set_option autoImplicit false

namespace Trampoline

namespace Ending

def armed : Ending → Nat
  | .suspended => 1
  | _ => 0

def refused : Ending → Nat
  | .failed .loopClosed => 1
  | _ => 0

def outcome? : Ending → Option (Except Failure Value)
  | .returned _ v => some (.ok v)
  | .failed cause => some (.error cause)
  | _ => none

theorem uncounted_of_plain {e : Ending} (plain : e.isPlain = true) : e.armed = 0 ∧ e.refused = 0 := by
  cases e with
  | failed cause => cases cause <;> simp [isPlain, armed, refused] at plain ⊢
  | _ => simp [isPlain, armed, refused] at plain ⊢

end Ending

namespace World

def loop? (w : World) (m : MachineId) : Option Loop := (w.machine? m).map Machine.loop

theorem quiet_loop? (w : World) (m : MachineId) : w.quiet.loop? m = w.loop? m := by
  simp only [loop?, quiet_machine?, Option.map_map]
  rfl

theorem machine?_updateMachine (w : World) (m : MachineId) (f : Machine → Machine) :
    (w.updateMachine m f).machine? m = (w.machine? m).map f := by
  simp [machine?, updateMachine, Array.getElem?_modify]

theorem getElem?_budgets (w : World) (m : MachineId) :
    w.budgets[m]? = (w.machine? m).map Machine.budget := by
  simp [budgets, machine?]

-- Nothing that is counted differs: the waiting resumptions and the loops of the machines, their budgets,
-- the timers and the outcomes are the same.
structure SameCounts (w u : World) : Prop where
  machines : u.quiet.machines = w.quiet.machines
  budgets : u.budgets = w.budgets
  timers : u.timers = w.timers
  outcomes : u.outcomes = w.outcomes

namespace SameCounts

variable {w u v : World}

theorem refl (w : World) : w.SameCounts w := ⟨rfl, rfl, rfl, rfl⟩

theorem trans (first : w.SameCounts u) (second : u.SameCounts v) : w.SameCounts v :=
  ⟨second.machines.trans first.machines, second.budgets.trans first.budgets,
    second.timers.trans first.timers, second.outcomes.trans first.outcomes⟩

theorem pending (sameCounts : w.SameCounts u) (m : MachineId) : u.pending m = w.pending m :=
  pending_congr sameCounts.machines m

theorem loop? (sameCounts : w.SameCounts u) (m : MachineId) : u.loop? m = w.loop? m := by
  rw [← quiet_loop? u, ← quiet_loop? w]
  simp only [World.loop?, machine?, sameCounts.machines]

end SameCounts

theorem sameCounts_updateMachine (w : World) (m : MachineId) (f : Machine → Machine)
    (unseen : ∀ machine, (f machine).quiet = machine.quiet)
    (kept : ∀ machine, (f machine).budget = machine.budget) : w.SameCounts (w.updateMachine m f) := by
  have quiet := quiet_updateMachine_counter w m f unseen
  exact ⟨by rw [quiet], budgets_updateMachine w m f kept, rfl, rfl⟩

theorem sameCounts_refill (w : World) (m : MachineId) : w.SameCounts (w.refill m) :=
  sameCounts_updateMachine w m _ (fun _ => rfl) fun _ => rfl

theorem sameCounts_paid {w u : World} (paid : u = w ∨ ∃ owner, u = w.spend owner) : w.SameCounts u := by
  rcases paid with rfl | ⟨owner, rfl⟩
  · exact .refl u
  · exact sameCounts_updateMachine w owner _ (fun _ => rfl) fun _ => rfl

theorem sameCounts_countLegs (w : World) (m : MachineId) (legs : Nat) : w.SameCounts (w.countLegs m legs) := by
  have quiet := quiet_countLegs w m legs
  refine ⟨by rw [quiet], budgets_countLegs w m legs, ?_, ?_⟩
  · unfold countLegs
    split <;> rfl
  · unfold countLegs
    split
    · rw [outcomes_note]
      exact List.append_nil _
    · rfl

-- The world that an execution leaves, compared with the world in which it began.
structure Left (m : MachineId) (w : World) (e : Ending) (after : World) : Prop where
  pending : after.pending m = w.pending m + e.armed + e.refused
  timers : ∃ new, after.timers = w.timers ++ new ∧ new.length = e.armed
  loop : after.loop? m = w.loop? m
  budgets : after.budgets = w.budgets
  outcomes : after.outcomes = w.outcomes
  closed : e.refused ≠ 0 → w.loop? m = some .closed
  owner : ∀ n v, e = .returned n v → n = m

namespace Left

variable {m : MachineId} {w u v after : World} {e : Ending}

theorem of_sameCounts (sameCounts : w.SameCounts after) (armed : e.armed = 0) (refused : e.refused = 0)
    (owner : ∀ n v, e = .returned n v → n = m) : Left m w e after where
  pending := by simp [sameCounts.pending m, armed, refused]
  timers := ⟨[], by simp [sameCounts.timers], armed.symm⟩
  loop := sameCounts.loop? m
  budgets := sameCounts.budgets
  outcomes := sameCounts.outcomes
  closed := fun counted => absurd refused counted
  owner := owner

theorem between (before : w.SameCounts u) (left : Left m u e v) (last : v.SameCounts after) :
    Left m w e after where
  pending := by rw [last.pending, left.pending, before.pending]
  timers := by rw [last.timers, ← before.timers]; exact left.timers
  loop := by rw [last.loop?, left.loop, before.loop?]
  budgets := by rw [last.budgets, left.budgets, before.budgets]
  outcomes := by rw [last.outcomes, left.outcomes, before.outcomes]
  closed := by rw [← before.loop?]; exact left.closed
  owner := left.owner

end Left

theorem pending_of_machine {w : World} {m : MachineId} {machine : Machine}
    (found : w.machine? m = some machine) : w.pending m = machine.pending := by
  simp [pending, found]

theorem left_arm {w after : World} {m : MachineId} {milliseconds : Float} {k : Kont} {v : Value}
    {e : Ending} (ended : w.arm m milliseconds k v = .ended e after) : Left m w e after := by
  have budgets := budgets_arm ended
  unfold arm at ended
  cases found : w.machine? m with
  | none =>
      simp only [found, Option.map_none] at ended
      cases ended
      exact .of_sameCounts (.refl w) rfl rfl (by simp)
  | some machine =>
      have counted : (w.updateMachine m
          fun machine => { machine with pending := machine.pending + 1 }).machine? m =
            some { machine with pending := machine.pending + 1 } := by
        rw [machine?_updateMachine, found]
        rfl
      simp only [found, Option.map_some] at ended
      cases kind : machine.loop with
      | missing =>
          simp only [kind] at ended
          cases ended
          exact .of_sameCounts (.refl w) rfl rfl (by simp)
      | running =>
          simp only [kind] at ended
          cases ended
          refine ⟨?_, ⟨_, rfl, rfl⟩, ?_, budgets, ?_, by simp [Ending.refused], by simp⟩
          · exact (pending_of_machine counted).trans (by simp [pending_of_machine found, Ending.armed,
              Ending.refused])
          · exact (congrArg (Option.map Machine.loop) counted).trans (by simp [loop?, found])
          · exact (outcomes_note _ _).trans (List.append_nil _)
      | closed =>
          simp only [kind] at ended
          cases ended
          refine ⟨?_, ⟨[], by simp [note, updateMachine], rfl⟩, ?_, budgets, ?_, ?_, by simp⟩
          · exact (pending_of_machine counted).trans (by simp [pending_of_machine found, Ending.armed,
              Ending.refused])
          · exact (congrArg (Option.map Machine.loop) counted).trans (by simp [loop?, found])
          · exact (outcomes_note _ _).trans (List.append_nil _)
          · intro _
            simp [loop?, found, kind]

end World

namespace Config

theorem sameCounts_next (c d : Config) (next : c.step = .next d) : c.world.SameCounts d.world := by
  obtain ⟨m, legs, call, w⟩ := c
  rcases step_cases m legs call w with bounced | ⟨u, paid, performed⟩
  · cases next.symm.trans bounced
    exact World.sameCounts_refill w m
  · have before := World.sameCounts_paid paid
    have act := Call.perform_act call u
    rw [performed] at next
    cases result : call.perform u with
    | call call' w' =>
        rw [result] at next act
        cases next
        cases act with
        | goes machines timers outcomes =>
            have quiet : w'.quiet.machines = u.quiet.machines :=
              congrArg (Array.map Machine.quiet) machines
            have budgets : w'.budgets = u.budgets := congrArg (Array.map Machine.budget) machines
            exact before.trans ⟨quiet, budgets, timers, outcomes⟩
        | sleeps sleep milliseconds armed =>
            obtain ⟨e, after, ended, _⟩ := World.arm_ended u _ milliseconds _ .no
            cases armed.symm.trans ended
    | ended e w' =>
        obtain ⟨after, finished, _⟩ := finish_ended m legs e w'
        rw [result, advance, finished] at next
        cases next

theorem sameCounts_reaches (c d : Config) (reaches : c.Reaches d) : c.world.SameCounts d.world := by
  induction reaches with
  | refl => exact .refl c.world
  | @tail before after _ next ih => exact ih.trans (sameCounts_next before after next)

theorem sameCounts_finish (m : MachineId) (legs : Nat) (e e' : Ending) (w after : World)
    (finished : finish m legs e w = .ended e' after) : e' = e ∧ w.SameCounts after := by
  cases e with
  | failed cause =>
      cases finished
      exact ⟨rfl, .refl w⟩
  | _ =>
      cases finished
      exact ⟨rfl, World.sameCounts_countLegs w m legs⟩

theorem left_ended (c : Config) (e : Ending) (after : World) (ready : c.Ready)
    (ended : c.step = .ended e after) : World.Left c.driver c.world e after := by
  obtain ⟨m, legs, call, w⟩ := c
  rcases step_cases m legs call w with bounced | ⟨u, paid, performed⟩
  · cases ended.symm.trans bounced
  · have before := World.sameCounts_paid paid
    have act := Call.perform_act call u
    rw [performed] at ended
    cases result : call.perform u with
    | call call' w' =>
        rw [result] at ended
        cases ended
    | ended e' w' =>
        rw [result] at ended act
        obtain ⟨rfl, last⟩ := sameCounts_finish m legs e' e w' after ended
        cases act with
        | @returns owner k v final =>
            subst final
            have mine : owner = m := ready.call.1.1
            refine .of_sameCounts (before.trans last) rfl rfl ?_
            intro n value same
            cases same
            exact mine
        | stops _ plain =>
            obtain ⟨armed, refused⟩ := Ending.uncounted_of_plain plain
            refine .of_sameCounts (before.trans last) armed refused ?_
            intro n value same
            subst same
            cases plain
        | @sleeps owner func args env k _ sleep milliseconds armed =>
            subst sleep
            have mine : owner = m := ready.call.1
            subst mine
            exact .between before (World.left_arm armed) last

theorem left_drive (bound : Nat) (c : Config) (e : Ending) (after : World) (ready : c.Ready)
    (driven : drive bound c = some (e, after)) : World.Left c.driver c.world e after := by
  obtain ⟨d, reaches, ended⟩ := reaches_of_drive bound c e after driven
  obtain ⟨stillReady, sameDriver, _⟩ := ready_reaches c d ready reaches
  have left := left_ended d e after stillReady ended
  rw [sameDriver] at left
  exact .between (sameCounts_reaches c d reaches) left (.refl after)

end Config

end Trampoline

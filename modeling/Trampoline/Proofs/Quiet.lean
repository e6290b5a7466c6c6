import Trampoline.Machine.Timers

set_option autoImplicit false

namespace Trampoline

-- Events that report counters of a machine are hidden; all others can be seen from outside.
def Event.isVisible : Event → Bool
  | .legs _ => false
  | .finished _ => false
  | .ran .. => false
  | _ => true

def Machine.quiet (machine : Machine) : Machine :=
  { machine with budget := 0, remaining := 0, bounces := 0 }

section Notes

def idleEvents (hooks : Hooks) (pending : Int) : Array Event :=
  if hooks.onIdle && pending == 0 then #[.idle] else #[]

def Ending.events (hooks : Hooks) (pending : Int) : Ending → Array Event
  | .returned _ v => #[.result v] ++ idleEvents hooks pending
  | .suspended => idleEvents hooks pending
  | .halted => idleEvents hooks pending
  | .failed cause => #[.raised cause]

theorem idleEvents_visible (hooks : Hooks) (pending : Int) :
    ∀ event ∈ idleEvents hooks pending, event.isVisible = true := by
  unfold idleEvents
  split <;> simp [Event.isVisible]

theorem Ending.events_visible (hooks : Hooks) (pending : Int) (e : Ending) :
    ∀ event ∈ e.events hooks pending, event.isVisible = true := by
  cases e with
  | returned m v =>
      intro event member
      rcases Array.mem_append.mp member with result | idle
      · rw [Array.mem_singleton] at result
        exact result ▸ rfl
      · exact idleEvents_visible hooks pending event idle
  | failed cause => simp [Ending.events, Event.isVisible]
  | suspended => exact idleEvents_visible hooks pending
  | halted => exact idleEvents_visible hooks pending

end Notes

namespace World

def events (w : World) : Array Event := w.trace.filter Event.isVisible

def quiet (w : World) : World :=
  { w with machines := w.machines.map Machine.quiet, trace := w.events, checks := none }

@[simp] theorem quiet_store (w : World) : w.quiet.store = w.store := rfl

theorem quiet_note_visible (w : World) (event : Event) (visible : event.isVisible = true) :
    (w.note event).quiet = w.quiet.note event := by
  simp [quiet, events, note, visible]

theorem quiet_note_hidden (w : World) (event : Event) (hidden : event.isVisible = false) :
    (w.note event).quiet = w.quiet := by
  simp [quiet, events, note, hidden]

theorem quiet_writeLine (w : World) (env : Env) (text : String) :
    (w.writeLine env text).quiet = w.quiet.writeLine env text :=
  quiet_note_visible w _ rfl

theorem quiet_reportElapsed (w : World) (env : Env) (start : Nat) :
    (w.reportElapsed env start).quiet = w.quiet.reportElapsed env start :=
  quiet_writeLine _ env _

theorem quiet_makeClosure (w : World) (params : List String) (body : Expr) (name : Option String)
    (env : Env) :
    w.quiet.makeClosure params body name env =
      ((w.makeClosure params body name env).1, (w.makeClosure params body name env).2.quiet) := by
  by_cases anonymous : (name.getD "").isEmpty
  · simp only [makeClosure, if_pos anonymous]
    rfl
  · simp only [makeClosure, if_neg anonymous]
    rfl

theorem quiet_machine? (w : World) (m : MachineId) :
    w.quiet.machine? m = (w.machine? m).map Machine.quiet := by
  simp [quiet, machine?]

theorem quiet_updateMachine (w : World) (m : MachineId) (f g : Machine → Machine)
    (commutes : ∀ machine, (f machine).quiet = g machine.quiet) :
    (w.updateMachine m f).quiet = w.quiet.updateMachine m g := by
  simp only [quiet, updateMachine, events]
  congr 1
  apply Array.ext
  · simp
  · intro i bound₁ bound₂
    by_cases here : m = i <;> simp [Array.getElem_modify, here, commutes]

theorem quiet_updateMachine_counter (w : World) (m : MachineId) (f : Machine → Machine)
    (unseen : ∀ machine, (f machine).quiet = machine.quiet) :
    (w.updateMachine m f).quiet = w.quiet := by
  simp only [quiet, updateMachine, events]
  congr 1
  apply Array.ext
  · simp
  · intro i bound₁ bound₂
    by_cases here : m = i <;> simp [Array.getElem_modify, here, unseen]

theorem quiet_spend (w : World) (m : MachineId) : (w.spend m).quiet = w.quiet :=
  quiet_updateMachine_counter w m _ fun _ => rfl

theorem quiet_refill (w : World) (m : MachineId) : (w.refill m).quiet = w.quiet :=
  quiet_updateMachine_counter w m _ fun _ => rfl

theorem quiet_countLegs (w : World) (m : MachineId) (legs : Nat) :
    (w.countLegs m legs).quiet = w.quiet := by
  unfold countLegs
  split
  · rw [quiet_note_hidden _ _ rfl]
    exact quiet_updateMachine_counter w m _ fun _ => rfl
  · exact quiet_updateMachine_counter w m _ fun _ => rfl

theorem quiet_watch (w : World) (bound : Nat) (c : Config) : (w.watch bound c).quiet = w.quiet := rfl

theorem quiet_noteRan (w : World) (m : MachineId) : (w.noteRan m).quiet = w.quiet := by
  unfold noteRan
  split
  · exact quiet_note_hidden w _ rfl
  · rfl

theorem quiet_pending (w : World) (m : MachineId) : w.quiet.pending m = w.pending m := by
  simp only [pending, quiet_machine?, Option.map_map]
  rfl

theorem pending_congr {w u : World} (machines : w.quiet.machines = u.quiet.machines) (n : MachineId) :
    w.pending n = u.pending n := by
  rw [← quiet_pending w, ← quiet_pending u]
  simp only [pending, machine?, machines]

theorem noteIdle_trace (w : World) (hooks : Hooks) (m : MachineId) :
    w.noteIdle hooks m = { w with trace := w.trace ++ idleEvents hooks (w.pending m) } := by
  unfold noteIdle idleEvents
  split
  · rw [Array.append_singleton]
    rfl
  · rw [Array.append_empty]

theorem noteRun_trace (w : World) (hooks : Hooks) (m : MachineId) (e : Ending) :
    w.noteRun hooks m e = { w with trace := w.trace ++ e.events hooks (w.pending m) } := by
  cases e with
  | failed cause =>
      simp only [noteRun, note, Ending.events, Array.append_singleton]
  | returned owner v =>
      simp only [noteRun, noteEnding, noteIdle_trace, note, Ending.events]
      rw [← Array.append_assoc, Array.append_singleton]
      rfl
  | suspended => exact noteIdle_trace w hooks m
  | halted => exact noteIdle_trace w hooks m

theorem quiet_noteRun (w : World) (hooks : Hooks) (m : MachineId) (e : Ending) :
    (w.noteRun hooks m e).quiet = w.quiet.noteRun hooks m e := by
  have seen := Array.filter_eq_self.mpr (Ending.events_visible hooks (w.pending m) e)
  rw [noteRun_trace, noteRun_trace, quiet_pending]
  simp [quiet, events, seen]

theorem quiet_noteFired (w : World) (hooks : Hooks) (m : MachineId) (e : Ending) :
    w.quiet.noteFired hooks m e =
      ((w.noteFired hooks m e).1, (w.noteFired hooks m e).2.quiet) := by
  cases e with
  | failed cause =>
      simp only [noteFired]
      split
      · rw [quiet_note_visible w _ rfl]
      · rfl
  | returned owner v => exact congrArg (Prod.mk none) (quiet_noteRun w hooks m (.returned owner v)).symm
  | suspended => exact congrArg (Prod.mk none) (quiet_noteRun w hooks m .suspended).symm
  | halted => exact congrArg (Prod.mk none) (quiet_noteRun w hooks m .halted).symm

end World

namespace World

def budgets (w : World) : Array Nat := w.machines.map Machine.budget

theorem budgets_updateMachine (w : World) (m : MachineId) (f : Machine → Machine)
    (kept : ∀ machine, (f machine).budget = machine.budget) :
    (w.updateMachine m f).budgets = w.budgets := by
  unfold budgets updateMachine
  apply Array.ext
  · simp
  · intro i bound₁ bound₂
    by_cases here : m = i <;> simp [Array.getElem_modify, here, kept]

theorem budgets_countLegs (w : World) (m : MachineId) (legs : Nat) :
    (w.countLegs m legs).budgets = w.budgets := by
  have counted := budgets_updateMachine w m
    (fun machine => { machine with bounces := machine.bounces + (legs - 1) }) fun _ => rfl
  unfold countLegs
  split
  · exact counted
  · exact counted

theorem budgets_arm {w after : World} {m : MachineId} {milliseconds : Float} {k : Kont} {v : Value}
    {e : Ending} (armed : w.arm m milliseconds k v = .ended e after) : after.budgets = w.budgets := by
  have counted := budgets_updateMachine w m
    (fun machine => { machine with pending := machine.pending + 1 }) fun _ => rfl
  unfold arm at armed
  split at armed
  · cases armed
    rfl
  · cases armed
    rfl
  · dsimp only at armed
    split at armed
    · cases armed
      exact counted
    · cases armed
      exact counted

end World

def Next.quiet : Next → Next
  | .call c w => .call c w.quiet
  | .ended e w => .ended e w.quiet

theorem arm_quiet (w : World) (m : MachineId) (milliseconds : Float) (k : Kont) (v : Value) :
    w.quiet.arm m milliseconds k v = (w.arm m milliseconds k v).quiet := by
  have counted := World.quiet_updateMachine w m
    (fun machine => { machine with pending := machine.pending + 1 })
    (fun machine => { machine with pending := machine.pending + 1 }) fun _ => rfl
  have loops : (w.quiet.machine? m).map Machine.loop = (w.machine? m).map Machine.loop := by
    rw [World.quiet_machine?, Option.map_map]
    rfl
  have pendings (u : World) :
      (u.quiet.machine? m).map Machine.pending = (u.machine? m).map Machine.pending := by
    rw [World.quiet_machine?, Option.map_map]
    rfl
  unfold World.arm
  rw [loops, ← counted]
  cases found : (w.machine? m).map Machine.loop with
  | none => rfl
  | some loop =>
      cases loop with
      | missing => rfl
      | running =>
          dsimp only
          rw [pendings, ← World.quiet_note_visible _ _ rfl]
          rfl
      | closed =>
          dsimp only
          rw [pendings, ← World.quiet_note_visible _ _ rfl]
          rfl

namespace Call

theorem evaluateExpr_quiet (m : MachineId) (e : Expr) (env : Env) (k : Kont) (w : World) :
    evaluateExpr m e env k w.quiet = (evaluateExpr m e env k w).quiet := by
  cases e with
  | var name =>
      simp only [evaluateExpr, World.quiet_store]
      cases w.store.get? env name <;> rfl
  | assign target value => cases target <;> rfl
  | lambda params body name =>
      simp only [evaluateExpr, World.quiet_makeClosure]
      rfl
  | _ => rfl

theorem resumeFrame_quiet (frame : Frame) (k : Kont) (v : Value) (w : World) :
    resumeFrame frame k v w.quiet = (resumeFrame frame k v w).quiet := by
  cases frame with
  | assign m name env =>
      simp only [resumeFrame, World.quiet_store]
      cases w.store.target? env name <;> rfl
  | right m op left =>
      simp only [resumeFrame]
      cases applyOperator op left v <;> rfl
  | branch m yes no env =>
      simp only [resumeFrame]
      split
      · rfl
      · split <;> rfl
  | timed start env =>
      simp only [resumeFrame, Next.quiet, World.quiet_reportElapsed]
  | _ => rfl

theorem applyBuiltin_quiet (m : MachineId) (b : Builtin) (args : List Value) (env : Env) (k : Kont)
    (w : World) : applyBuiltin m b args env k w.quiet = (applyBuiltin m b args env k w).quiet := by
  obtain ⟨name, mode, action, stamp⟩ := b
  cases mode with
  | sync => rfl
  | cps =>
      cases action with
      | print => simp only [applyBuiltin, Next.quiet, World.quiet_writeLine]
      | sleep =>
          simp only [applyBuiltin]
          cases (firstArg args).toNumber with
          | ok milliseconds => exact arm_quiet w m milliseconds k .no
          | error cause => rfl
      | _ => rfl

theorem perform_quiet (c : Call) (w : World) : c.perform w.quiet = (c.perform w).quiet := by
  cases c with
  | evaluate m e env k => exact evaluateExpr_quiet m e env k w
  | items m last rest env k => cases rest <;> rfl
  | arguments m func done rest env k => cases rest <;> rfl
  | bindings m rest body env k =>
      cases rest with
      | nil => rfl
      | cons b rest =>
          obtain ⟨name, init⟩ := b
          simp only [perform, nextBinding]
          split <;> rfl
  | enter m closure args k => rfl
  | apply m func args env k =>
      cases func with
      | builtin b => exact applyBuiltin_quiet m b args env k w
      | _ => rfl
  | resume k v =>
      cases k with
      | nil => rfl
      | cons frame k => exact resumeFrame_quiet frame k v w

end Call

end Trampoline

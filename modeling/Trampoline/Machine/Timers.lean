import Trampoline.Machine.Drive

/-!
Runs with timers. A machine runs programs one after the other; a run that sleeps leaves a timer, and
timers fire in virtual time, the earliest first.
-/

set_option autoImplicit false

namespace Trampoline

namespace World

def addMachine (w : World) (budget : Nat) (loop : Loop) : MachineId × World :=
  (w.machines.size, { w with machines := w.machines.push ⟨budget, budget, 0, 0, loop⟩ })

def pending (w : World) (m : MachineId) : Int := ((w.machine? m).map Machine.pending).getD 0

/-- The best candidate so far against the others; an equal one does not replace it. -/
def earliestIn (best : Timer × Nat) : List (Timer × Nat) → Timer × Nat
  | [] => best
  | c :: cs => earliestIn (if c.1.due < best.1.due then c else best) cs

/-- The earliest of the timers, of several the one armed first, and the others in order. -/
def earliest? : List Timer → Option (Timer × List Timer)
  | [] => none
  | t :: ts =>
      let (best, i) := earliestIn (t, 0) (ts.zipIdx 1)
      some (best, (t :: ts).eraseIdx i)

def nextTimer? (w : World) : Option (Timer × World) :=
  (earliest? w.timers).map fun (t, others) => (t, { w with timers := others, now := t.due })

end World

def Config.ofProgram (m : MachineId) (e : Expr) (env : Env) (w : World) : Config :=
  .start m (.evaluate m e env [.final m]) w

/-- A timer fires: its machine takes up the continuation where it was left. -/
def Config.ofTimer (t : Timer) (w : World) : Config :=
  .start t.machine (.resume t.kont t.value)
    (w.updateMachine t.machine fun machine => { machine with pending := machine.pending - 1 })

def run (bound : Nat) (m : MachineId) (e : Expr) (env : Env) (w : World) :
    Option (Ending × World) :=
  drive bound (.ofProgram m e env w)

def fire (bound : Nat) (t : Timer) (w : World) : Option (Ending × World) :=
  drive bound (.ofTimer t w)

/-- Which hooks are set on a machine: one for failures of resumed runs, one for idleness. -/
structure Hooks where
  onError : Bool := true
  onIdle : Bool := true

namespace World

/-- Keeps the checks of a run that has ended, if they are wanted. -/
def watch (w : World) (bound : Nat) (c : Config) : World :=
  { w with checks := w.checks.map (c.checks bound) }

def noteIdle (w : World) (hooks : Hooks) (m : MachineId) : World :=
  if hooks.onIdle && w.pending m == 0 then w.note .idle else w

def noteEnding (w : World) : Ending → World
  | .returned _ v => w.note (.result v)
  | _ => w

/-- A program that fails raises its failure. -/
def noteRun (w : World) (hooks : Hooks) (m : MachineId) : Ending → World
  | .failed cause => w.note (.raised cause)
  | ending => (w.noteEnding ending).noteIdle hooks m

/-- A resumed run that fails leaves its failure to the hook; without one it is handed on. -/
def noteFired (w : World) (hooks : Hooks) (m : MachineId) : Ending → Option Failure × World
  | .failed cause => if hooks.onError then (none, w.note (.failed cause)) else (some cause, w)
  | ending => (none, (w.noteEnding ending).noteIdle hooks m)

def noteRan (w : World) (m : MachineId) : World :=
  match w.machine? m with
  | some machine => w.note (.ran machine.bounces machine.remaining machine.pending)
  | none => w

end World

def runNoted (bound : Nat) (hooks : Hooks) (m : MachineId) (e : Expr) (env : Env) (w : World) :
    Option World :=
  (run bound m e env w).map fun (ending, after) =>
    ((after.watch bound (.ofProgram m e env w)).noteRun hooks m ending).noteRan m

def fireNoted (bound : Nat) (hooks : Hooks) (t : Timer) (w : World) :
    Option (Option Failure × World) :=
  (fire bound t w).map fun (ending, after) =>
    (after.watch bound (.ofTimer t w)).noteFired hooks t.machine ending

/-- Fires timers until none is left or a failure has no hook. -/
def drainNoted (bound : Nat) (hooks : Hooks) : Nat → World → Option (Option Failure × World)
  | 0, _ => none
  | more + 1, w =>
      match w.nextTimer? with
      | none => some (none, w)
      | some (t, w) =>
          match fireNoted bound hooks t w with
          | none => none
          | some (some cause, w) => some (some cause, w)
          | some (none, w) => drainNoted bound hooks more w

end Trampoline

import Trampoline.Machine.Timers

/-!
Waiting for a run. The final value, a failure of a resumed run and idleness all settle one promise,
and the first of them counts.
-/

set_option autoImplicit false

namespace Trampoline

/-- A value, no value for a run that halted, or a failure. -/
abbrev Settled := Except Failure (Option Value)

abbrev Promise := Option Settled

namespace Promise

def settle (p : Promise) (s : Settled) : Promise := p.or (some s)

/-- Only the final value of the machine's own run settles its promise. -/
def onEnding (p : Promise) (m : MachineId) : Ending → Promise
  | .returned owner v => if owner = m then p.settle (.ok (some v)) else p
  | _ => p

def onIdle (p : Promise) (m : MachineId) (w : World) : Promise :=
  if w.pending m = 0 then p.settle (.ok none) else p

end Promise

def await (bound : Nat) (m : MachineId) : Nat → Promise → World → Option (Settled × World)
  | _, some s, w => some (s, w)
  | 0, none, _ => none
  | more + 1, none, w =>
      match w.nextTimer? with
      | none => none
      | some (t, w) =>
          match fire bound t w with
          | none => none
          | some (.failed cause, w) => await bound m more (Promise.settle none (.error cause)) w
          | some (ending, w) =>
              await bound m more ((Promise.onEnding none m ending).onIdle m w) w

/-- The loop of a finished run takes no more timers. -/
def World.closeLoop (w : World) (m : MachineId) : World :=
  { w.updateMachine m ({ · with loop := .closed }) with timers := [] }

/-- Runs a program on a machine and waits for it. A failure of its first part ends it at once. -/
def runToEnd (bound : Nat) (m : MachineId) (e : Expr) (env : Env) (w : World) :
    Option (Settled × World) :=
  match run bound m e env w with
  | none => none
  | some (.failed cause, w) => some (.error cause, w.closeLoop m)
  | some (ending, w) =>
      (await bound m bound ((Promise.onEnding none m ending).onIdle m w) w).map
        fun (s, w) => (s, w.closeLoop m)

end Trampoline

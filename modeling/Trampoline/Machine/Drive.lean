import Trampoline.Machine.Call

/-!
Driving a machine. Each checkpoint spends one step of the budget of the machine that it belongs to;
when none is left, the call at hand is made again in a new leg, for which the driving machine gets a
full budget.
-/

set_option autoImplicit false

namespace Trampoline

namespace World

def canSpend (w : World) (m : MachineId) : Bool :=
  match w.machine? m with
  | some machine => 0 < machine.remaining
  | none => true

def spend (w : World) (m : MachineId) : World :=
  w.updateMachine m fun machine => { machine with remaining := machine.remaining - 1 }

def refill (w : World) (m : MachineId) : World :=
  w.updateMachine m fun machine => { machine with remaining := machine.budget }

/-- A run that ends without a failure counts the legs after its first. -/
def countLegs (w : World) (m : MachineId) (legs : Nat) : World :=
  let w := w.updateMachine m fun machine => { machine with bounces := machine.bounces + (legs - 1) }
  if 1 < legs then w.note (.legs legs) else w

end World

/-- A run in progress: the machine that drives it, the legs begun, the next call and the world. -/
structure Config where
  driver : MachineId
  legs : Nat
  call : Call
  world : World

inductive Step where
  | next (c : Config)
  | ended (e : Ending) (w : World)

/-- Legs are counted only for a run that does not fail. -/
def finish (driver : MachineId) (legs : Nat) (e : Ending) (w : World) : Step :=
  match e with
  | .failed cause => .ended (.failed cause) w
  | e => .ended e (w.countLegs driver legs)

namespace Config

def start (driver : MachineId) (call : Call) (w : World) : Config :=
  ⟨driver, 1, call, w.refill driver⟩

def advance (driver : MachineId) (legs : Nat) : Next → Step
  | .call call w => .next ⟨driver, legs, call, w⟩
  | .ended e w => finish driver legs e w

def step : Config → Step
  | ⟨driver, legs, call, w⟩ =>
      match call.checkpoint? with
      | none => advance driver legs (call.perform w)
      | some (m, _) =>
          if w.canSpend m then advance driver legs (call.perform (w.spend m))
          else .next ⟨driver, legs + 1, call, w.refill driver⟩

def check? (c : Config) : Option (Checkpoint × Bool) :=
  c.call.checkpoint?.map fun (m, point) => (point, c.world.canSpend m)

def checks : Nat → Config → List (Checkpoint × Bool) → List (Checkpoint × Bool)
  | 0, _, seen => seen
  | bound + 1, c, seen =>
      let seen :=
        match c.check? with
        | some check => check :: seen
        | none => seen
      match c.step with
      | .next c => checks bound c seen
      | .ended .. => seen

end Config

def drive : Nat → Config → Option (Ending × World)
  | 0, _ => none
  | bound + 1, c =>
      match c.step with
      | .next c => drive bound c
      | .ended e w => some (e, w)

end Trampoline

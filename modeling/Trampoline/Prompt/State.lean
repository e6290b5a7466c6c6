import Trampoline.Console
import Trampoline.Prompt.Command

/-!
The state of a prompt: the mode and the front end in use, and one root for each mode, made when it
is first needed. Both roots stand in one world.
-/

set_option autoImplicit false

namespace Trampoline.Prompt

/-- Mode and front end are names that are looked up when a text is evaluated. -/
structure State where
  mode : String := "sync"
  frontEnd : String := "rd"
  settings : Settings
  world : World := {}
  sync : Option Env := none
  cps : Option Env := none

structure Root where
  env : Env
  world : World

namespace State

def env? (s : State) : Mode → Option Env
  | .sync => s.sync
  | .cps => s.cps

def root? (s : State) (mode : Mode) : Option Root := (s.env? mode).map fun env => ⟨env, s.world⟩

def setEnv (s : State) (mode : Mode) (env : Env) : State :=
  match mode with
  | .sync => { s with sync := some env }
  | .cps => { s with cps := some env }

/-- The root of a mode, made if there is none. -/
def enter (s : State) (mode : Mode) : Env × World :=
  match s.env? mode with
  | some env => (env, s.world)
  | none => s.world.root mode none

/-- The roots are forgotten; what they held stays where it was. -/
def reset (s : State) : State := { s with sync := none, cps := none }

/-- The result of a text, what could be observed, and the state after it. -/
structure Reply where
  result : Settled
  trace : Array Event
  state : State

def evaluateIn (bound : Nat) (mode : Mode) (e : Expr) (s : State) : Option Reply :=
  let (env, w) := s.enter mode
  (runIn bound s.settings none mode e env { w with trace := #[] }).map fun (result, w) =>
    ⟨result, w.trace, { s.setEnv mode env with world := w }⟩

def evaluate (bound : Nat) (text : String) (s : State) : Option Reply :=
  match FrontEnd.parseNamed s.frontEnd text with
  | .error cause => some ⟨.error cause, #[], s⟩
  | .ok e =>
      match Mode.ofName? s.mode with
      | none => some ⟨.error (.unknownMode s.mode), #[], s⟩
      | some mode => s.evaluateIn bound mode e

def setTraceback (s : State) (on : Bool) : State :=
  { s with settings := { s.settings with traceback := on } }

def printTraceback (s : State) (c : Console) : State × Console :=
  (s, c.print ("Python traceback: " ++ (if s.settings.traceback then "on" else "off")))

def command (s : State) (c : Console) : Command → State × Console
  | .clear => (s, c.print "<clear>")
  | .mode arg =>
      if arg.isEmpty then (s, c.print ("Mode: " ++ s.mode))
      else if (Mode.ofName? arg).isSome then ({ s with mode := arg }, c.print ("Mode: " ++ arg))
      else (s, c.complain "Usage: /mode [sync|cps]")
  | .traceback (some .on) => (s.setTraceback true).printTraceback c
  | .traceback (some .off) => (s.setTraceback false).printTraceback c
  | .traceback (some .toggle) => (s.setTraceback (!s.settings.traceback)).printTraceback c
  | .traceback none => (s, c.complain "Usage: /py-traceback [on|off]")
  | .reset => (s.reset, c.print "Environment reset.")
  | .unknown word => (s, c.complain ("Unknown command: " ++ word))

end State

end Trampoline.Prompt

import Trampoline.Descent
import Trampoline.Direct
import Trampoline.Grammar.Parser
import Trampoline.Machine.Promise
import Trampoline.Settings

/-!
Programs from source text to result, with either front end and in either mode.
-/

set_option autoImplicit false

namespace Trampoline

inductive FrontEnd where
  | descent
  | grammar
deriving DecidableEq, Repr

namespace FrontEnd

def name : FrontEnd → String
  | .descent => "rd"
  | .grammar => "lark"

def ofName? : String → Option FrontEnd
  | "rd" => some .descent
  | "lark" => some .grammar
  | _ => none

def parse (frontEnd : FrontEnd) (source : String) : Except ParseError Expr :=
  match frontEnd with
  | .descent => Descent.parse source
  | .grammar => Grammar.parse source

/-- Parses with the front end of a name; an unknown name comes before any fault of the source. -/
def parseNamed (name source : String) : Except Failure Expr :=
  match ofName? name with
  | some frontEnd => (frontEnd.parse source).mapError .parse
  | none => .error (.unknownFrontEnd name)

end FrontEnd

abbrev Report := Settled × World

def runDirect (bound : Nat) (e : Expr) (env : Env) (w : World) : Option Report :=
  match Direct.eval bound e env w with
  | .done v w => some (.ok (some v), w)
  | .failed cause w => some (.error cause, w)
  | .unfinished => none

def checkBudget (settings : Settings) : Option Int → Except Failure Nat
  | none => .ok settings.budget
  | some b => if 0 < b then .ok b.toNat else .error .budgetNotPositive

/-- A run that ends without a failure records how often a leg was used up. -/
def World.noteFinished (w : World) (m : MachineId) : Settled → World
  | .ok _ => w.note (.finished (((w.machine? m).map Machine.bounces).getD 0))
  | .error _ => w

/-- Evaluates on a machine of its own that has an event loop, and waits for the end. -/
def runAsync (bound : Nat) (settings : Settings) (budget : Option Int) (e : Expr) (env : Env)
    (w : World) : Option Report :=
  match checkBudget settings budget with
  | .error cause => some (.error cause, w)
  | .ok budget =>
      let (m, w) := w.addMachine budget .running
      (runToEnd bound m e env w).map fun (result, w) => (result, w.noteFinished m result)

def runIn (bound : Nat) (settings : Settings) (budget : Option Int) (mode : Mode) (e : Expr)
    (env : Env) (w : World) : Option Report :=
  match mode with
  | .sync => runDirect bound e env w
  | .cps => runAsync bound settings budget e env w

/-- Runs a source in a fresh root. The source is parsed before the mode is looked at. -/
def runSource (bound : Nat) (settings : Settings) (source modeName frontEndName : String)
    (out : Option Stream) (w : World) : Option Report :=
  match FrontEnd.parseNamed frontEndName source with
  | .error cause => some (.error cause, w)
  | .ok e =>
      match Mode.ofName? modeName with
      | none => some (.error (.unknownMode modeName), w)
      | some mode =>
          let (env, w) := w.root mode out
          runIn bound settings none mode e env w

/-- Evaluates on a machine without an event loop; a final value is printed in the root. -/
def runPrinting (bound : Nat) (budget : Nat) (e : Expr) (env : Env) (w : World) :
    Option (Except Failure Unit × World) :=
  let (m, w) := w.addMachine budget .missing
  (run bound m e env w).map fun (ending, w) =>
    match ending with
    | .returned _ v => (.ok (), w.writeLine env v.text)
    | .failed cause => (.error cause, w)
    | _ => (.ok (), w)

end Trampoline

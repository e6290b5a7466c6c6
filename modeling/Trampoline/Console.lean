import Trampoline.Program

/-!
What a terminal shows: text on the standard output and on the error output.
-/

set_option autoImplicit false

namespace Trampoline

structure Console where
  stdout : String := ""
  stderr : String := ""
deriving DecidableEq, Repr

namespace Console

def print (c : Console) (line : String) : Console := { c with stdout := c.stdout ++ line ++ "\n" }

def complain (c : Console) (line : String) : Console := { c with stderr := c.stderr ++ line ++ "\n" }

def logLine? : Event → Option String
  | .armed milliseconds pending =>
      some ("lambdalang.cps: sleep: resuming in " ++ Decimal.text milliseconds ++ "ms ("
        ++ toString pending ++ " pending)")
  | .legs count =>
      some ("lambdalang.cps: execute: finished after " ++ toString count ++ " legs")
  | .finished bounces =>
      some ("lambdalang.runner: cps run finished after " ++ toString bounces ++ " bounces")
  | _ => none

/-- Shows an event: lines of the program, and the log if it is wanted. -/
def observe (verbose : Bool) (c : Console) (event : Event) : Console :=
  match event with
  | .line .standard text => c.print text
  | event =>
      match logLine? event with
      | some line => if verbose then c.complain line else c
      | none => c

def showAll (c : Console) (verbose : Bool) (trace : Array Event) : Console :=
  trace.foldl (observe verbose) c

/-- What stands for the calls of the host that led to a failure. -/
def tracebackText : String := "<traceback>"

end Console

end Trampoline

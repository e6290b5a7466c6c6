import Trampoline.Files
import Trampoline.Prompt.Dialogue

/-!
The command line: its arguments, where the source comes from, and what a run of it shows.
-/

set_option autoImplicit false

namespace Trampoline.CommandLine

structure Invocation where
  mode : Mode := .sync
  frontEnd : FrontEnd := .descent
  dump : Bool := false
  verbose : Bool := false
  argument : Option String := none
deriving DecidableEq, Repr

def modeFor (name : String) : Except String Mode :=
  match Mode.ofName? name with
  | some mode => .ok mode
  | none => .error ("Unknown mode: " ++ name ++ " (expected one of sync, cps)")

def modeFlag : String := "--mode="

/-- Reads arguments from left to right; a fault is the text to exit with. -/
def Invocation.read (inv : Invocation) : List String → Except String Invocation
  | [] => .ok inv
  | "--cps" :: args => { inv with mode := .cps }.read args
  | ["--mode"] => .error "--mode flag requires a value"
  | "--mode" :: name :: args => do
      let mode ← modeFor name
      { inv with mode := mode }.read args
  | "--lark" :: args => { inv with frontEnd := .grammar }.read args
  | "--ast" :: args => { inv with dump := true }.read args
  | "--verbose" :: args => { inv with verbose := true }.read args
  | "-v" :: args => { inv with verbose := true }.read args
  | arg :: args =>
      if modeFlag.isPrefixOf arg then do
        let mode ← modeFor (String.ofList (arg.toList.drop modeFlag.length))
        { inv with mode := mode }.read args
      else
        match inv.argument with
        | none => { inv with argument := some arg }.read args
        | some _ => .error ("Unexpected argument: " ++ arg)

/-- Every convention for line ends becomes the one with a line feed. -/
def unifyLines : List Char → List Char
  | [] => []
  | '\r' :: '\n' :: cs => '\n' :: unifyLines cs
  | c :: cs => (if c = '\r' then '\n' else c) :: unifyLines cs

def unified (text : String) : String := String.ofList (unifyLines text.toList)

inductive Exit where
  | success
  | failure
  | message (text : String)
deriving DecidableEq, Repr

/-- What surrounds the command line: the standard input, the files at hand, and a terminal with
what is typed at it. -/
structure Surroundings where
  stdin : String := ""
  files : Files := {}
  terminal : Bool := false
  typed : List Prompt.Input := []

inductive Source where
  | text (source : String)
  | refused (exit : Exit)
  | fault (cause : Failure)

/-- An argument names a file or is the source itself; without one the standard input is read. -/
def Surroundings.source (around : Surroundings) (argument : Option String) : Source :=
  let fromInput : Source :=
    if around.stdin.isEmpty then .refused (.message "No input provided on stdin")
    else .text (unified around.stdin)
  match argument with
  | none => fromInput
  | some arg =>
      if arg = "-" then fromInput
      else
        let path := Path.ofText arg
        match around.files.find path with
        | .file content => .text (unified content)
        | .directory => .fault (.isDirectory path.text)
        | .missing => .text arg

def complainOf (settings : Settings) (cause : Failure) (c : Console) : Console :=
  let c := if settings.traceback then c.complain Console.tracebackText else c
  c.complain ("Error: " ++ cause.message)

/-- A failure of the program is reported; any other one escapes. -/
def conclude (settings : Settings) (c : Console) (cause : Failure) :
    Except Failure Exit × Console :=
  if cause.isReported then (.ok .failure, complainOf settings cause c) else (.error cause, c)

/-- Only runs with continuations show their final value. -/
def showResult (mode : Mode) (c : Console) : Option Value → Console
  | some v => if mode = .cps then c.print v.text else c
  | none => c

def runningLine (inv : Invocation) (source : String) : String :=
  "lambdalang.runner: running " ++ toString source.length ++ " chars in " ++ inv.mode.name
    ++ " mode (" ++ inv.frontEnd.name ++ " parser)"

def runText (bound : Nat) (settings : Settings) (inv : Invocation) (source : String) :
    Option (Except Failure Exit × Console) :=
  let c : Console := if inv.verbose then Console.complain {} (runningLine inv source) else {}
  if inv.dump then
    match inv.frontEnd.parse source with
    | .ok e => some (.ok .success, c.print (e.dump (some 3)))
    | .error e => some (conclude settings c (.parse e))
  else
    (runSource bound settings source inv.mode.name inv.frontEnd.name none {}).map
      fun (result, w) =>
        let c := c.showAll inv.verbose w.trace
        match result with
        | .ok v => (.ok .success, showResult inv.mode c v)
        | .error cause => conclude settings c cause

/-- What a run of the command line leaves: how it ended, what it showed before any prompt, and the
dialogue if there was one. -/
structure Record where
  exit : Except Failure Exit
  console : Console := {}
  dialogue : List Prompt.Entry := []

def startState (settings : Settings) (inv : Invocation) : Prompt.State :=
  { mode := inv.mode.name, frontEnd := inv.frontEnd.name, settings := settings }

def runDialogue (bound : Nat) (verbose : Bool) (typed : List Prompt.Input) (s : Prompt.State) :
    Option Record :=
  (Prompt.converse bound verbose typed s).map fun (entries, cause) =>
    { exit := match cause with
        | some cause => .error cause
        | none => .ok .success
      console := Console.print {} Prompt.banner
      dialogue := entries }

def run (bound : Nat) (settings : Settings) (args : List String) (around : Surroundings) :
    Option Record :=
  match Invocation.read {} args with
  | .error text => some { exit := .ok (.message text) }
  | .ok inv =>
      if inv.argument.isNone && around.terminal then
        runDialogue bound inv.verbose around.typed (startState settings inv)
      else
        match around.source inv.argument with
        | .refused exit => some { exit := .ok exit }
        | .fault cause => some { exit := .error cause }
        | .text source =>
            (runText bound settings inv source).map
              fun (exit, c) => { exit := exit, console := c }

end Trampoline.CommandLine

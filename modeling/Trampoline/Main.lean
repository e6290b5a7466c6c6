import Trampoline.CommandLine

/-!
The command line on a real terminal.
-/

set_option autoImplicit false

open Trampoline

namespace Trampoline.Main

/-- The bound on the work of one run, which no run reaches. -/
def bound : Nat := Nat.pow 10 18

def write (c : Console) : IO Unit := do
  IO.print c.stdout
  IO.eprint c.stderr
  (← IO.getStdout).flush

partial def readAll (input : IO.FS.Stream) (read : String) : IO String := do
  let line ← input.getLine
  if line.isEmpty then return read else readAll input (read ++ line)

/-- What a path names on this system. A directory can be opened but not read, so the error of
reading it names no file. -/
def readFiles (path : String) : IO Files := do
  try
    return { files := [(.ofText path, ← IO.FS.readFile path)] }
  catch
    | .inappropriateType none _ _ => return { directories := [.ofText path] }
    | _ => return {}

partial def readText (input : IO.FS.Stream) (before : String) : IO (Option String) := do
  let line ← input.getLine
  if line.isEmpty then return none
  let text := before ++ (line.dropEndWhile (· == '\n')).copy
  match Prompt.enterEdits text with
  | .insert more :: _ => readText input (text ++ more)
  | _ => return some text

def fault (text : String) : IO UInt32 := do
  IO.eprintln text
  return 1

partial def converse (verbose : Bool) (input : IO.FS.Stream) (s : Prompt.State) : IO UInt32 := do
  IO.print (Prompt.promptText s)
  (← IO.getStdout).flush
  let received := match ← readText input "" with
    | some text => Prompt.Input.line text
    | none => .endOfInput
  match Prompt.onInput bound verbose s received with
  | none => fault "out of bounds"
  | some (outcome, c) =>
      write c
      match outcome with
      | .goOn s => converse verbose input s
      | .stop => return 0
      | .escape cause => fault cause.message

def exitCode : Except Failure CommandLine.Exit → IO UInt32
  | .ok .success => return 0
  | .ok .failure => return 1
  | .ok (.message text) => fault text
  | .error cause => fault cause.message

def surroundings (argument : Option String) : IO CommandLine.Surroundings := do
  let input ← IO.getStdin
  match argument with
  | none => return { stdin := ← readAll input "" }
  | some "-" => return { stdin := ← readAll input "" }
  | some path => return { files := ← readFiles path }

end Trampoline.Main

open Trampoline.Main in
def main (args : List String) : IO UInt32 := do
  let settings := Settings.read (← IO.getEnv Settings.budgetVariable)
    (← IO.getEnv Settings.tracebackVariable)
  let input ← IO.getStdin
  match CommandLine.Invocation.read {} args with
  | .error text => fault text
  | .ok inv =>
      if inv.argument.isNone && (← input.isTty) then
        IO.println Prompt.banner
        converse inv.verbose input (CommandLine.startState settings inv)
      else
        match CommandLine.run bound settings args (← surroundings inv.argument) with
        | none => fault "out of bounds"
        | some record =>
            write record.console
            exitCode record.exit

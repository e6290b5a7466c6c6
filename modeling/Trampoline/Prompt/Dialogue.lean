import Trampoline.Prompt.Bracket
import Trampoline.Prompt.State

/-!
The dialogue at the prompt: what each input does, and the record of a whole dialogue.
-/

set_option autoImplicit false

namespace Trampoline.Prompt

inductive Key where
  | enter
  | backspace
deriving DecidableEq, Repr

/-- What a prompt receives. A key is pressed at the end of the text typed so far. -/
inductive Input where
  | line (text : String)
  | endOfInput
  | interrupt
  | key (key : Key) (text : String)
deriving DecidableEq, Repr

inductive Edit where
  | insert (text : String)
  | accept
  | delete (count : Nat)
  | complete
deriving DecidableEq, Repr

/-- A line break indents by two blanks for each open bracket. -/
def continuationText (depth : Nat) : String :=
  "\n" ++ String.ofList (List.replicate (2 * depth) ' ')

def enterEdits (text : String) : List Edit :=
  let depth := bracketDepth text
  if 0 < depth && !"/".isPrefixOf text then [.insert (continuationText depth)] else [.accept]

def backspaceEdits (text : String) : List Edit :=
  if "/".toList.isPrefixOf text.toList.dropLast then [.delete 1, .complete] else [.delete 1]

def editsFor : Key → String → List Edit
  | .enter, text => enterEdits text
  | .backspace, text => backspaceEdits text

def banner : String := "λanguage repl. Ctrl-D to exit, / for commands"

def promptText (s : State) : String := s.mode ++ "> "

inductive Outcome where
  | goOn (state : State)
  | stop
  | escape (cause : Failure)

def report (s : State) (c : Console) (cause : Failure) : Console :=
  let c := c.complain ("Error: " ++ cause.message)
  if s.settings.traceback then
    (c.complain "\nPython traceback:").complain Console.tracebackText
  else c

/-- A text that is neither blank nor a command is evaluated and its value shown. -/
def onLine (bound : Nat) (verbose : Bool) (raw : String) (s : State) : Option (Outcome × Console) :=
  let text := normalize raw
  if (Text.trim text.toList).isEmpty then some (.goOn s, {})
  else
    match Command.ofLine? text with
    | some command =>
        let (s, c) := s.command {} command
        some (.goOn s, c)
    | none =>
        (s.evaluate bound text).map fun reply =>
          let c := Console.showAll {} verbose reply.trace
          match reply.result with
          | .ok (some v) => (.goOn reply.state, c.print v.shown)
          | .ok none => (.goOn reply.state, c)
          | .error cause =>
              if cause.isReported then (.goOn reply.state, report reply.state c cause)
              else (.escape cause, c)

def onInput (bound : Nat) (verbose : Bool) (s : State) : Input → Option (Outcome × Console)
  | .line text => onLine bound verbose text s
  | .endOfInput => some (.stop, Console.print {} "")
  | .interrupt => some (.goOn s, Console.print {} "KeyboardInterrupt")
  | .key _ _ => some (.goOn s, {})

structure Entry where
  prompt : String
  input : Input
  console : Console

/-- Inputs one after the other, with the end of input behind them. -/
def converse (bound : Nat) (verbose : Bool) :
    List Input → State → Option (List Entry × Option Failure)
  | [], s =>
      (onInput bound verbose s .endOfInput).map
        fun (_, c) => ([⟨promptText s, .endOfInput, c⟩], none)
  | input :: inputs, s =>
      match onInput bound verbose s input with
      | none => none
      | some (.stop, c) => some ([⟨promptText s, input, c⟩], none)
      | some (.escape cause, c) => some ([⟨promptText s, input, c⟩], some cause)
      | some (.goOn next, c) =>
          (converse bound verbose inputs next).map
            fun (entries, cause) => (⟨promptText s, input, c⟩ :: entries, cause)

end Trampoline.Prompt

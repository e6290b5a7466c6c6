import Trampoline.Text.Blank

/-!
Slash commands of the prompt, and their completion.
-/

set_option autoImplicit false

namespace Trampoline.Prompt

/-- The commands with what they do, in the order in which they are offered. -/
def commandTable : List (String × String) :=
  [("/clear", "Clear the terminal screen"), ("/mode", "Show or switch the evaluator"),
   ("/py-traceback", "Toggle Python traceback on errors"), ("/reset", "Reset the REPL environment")]

/-- The commands that start with a text, which starts with a slash itself. -/
def completions (text : String) : List (String × String) :=
  if "/".isPrefixOf text then commandTable.filter fun (name, _) => text.isPrefixOf name else []

/-- The text before a cursor, which counts from the end if it is negative. -/
def beforeCursor (text : String) (cursor : Int) : String :=
  let cs := text.toList
  String.ofList (cs.take (if cursor < 0 then cs.length - cursor.natAbs else cursor.toNat))

inductive Switch where
  | on
  | off
  | toggle
deriving DecidableEq, Repr

inductive Command where
  | clear
  | mode (arg : String)
  | traceback (switch : Option Switch)
  | reset
  | unknown (word : String)
deriving DecidableEq, Repr

/-- The words are told apart without regard to case. No letter beyond ASCII has a lower case that
occurs in them. -/
def switchOf? (arg : String) : Option Switch :=
  let word := String.ofList (arg.toList.map Char.toLower)
  if ["on", "1", "true", "yes"].contains word then some .on
  else if ["off", "0", "false", "no"].contains word then some .off
  else if arg.isEmpty then some .toggle
  else none

/-- A command is a word after a slash; the rest of the line is its argument. -/
def Command.ofLine? (line : String) : Option Command :=
  match Text.trim line.toList with
  | '/' :: cs =>
      let (word, rest) := Text.splitWord ('/' :: cs)
      let arg := String.ofList rest
      match String.ofList word with
      | "/clear" => some .clear
      | "/mode" => some (.mode arg)
      | "/py-traceback" => some (.traceback (switchOf? arg))
      | "/reset" => some .reset
      | other => some (.unknown other)
  | _ => none

/-- Characters that cannot be seen and are dropped from input: zero-width ones, the byte order
mark, the no-break space and the carriage return. -/
def isInvisible (c : Char) : Bool :=
  ['\u200b', '\u200c', '\u200d', '\ufeff', '\u00a0', '\r'].contains c

def normalize (text : String) : String := String.ofList (text.toList.filter (!isInvisible ·))

end Trampoline.Prompt

import Trampoline.Failure
import Trampoline.Token.Stream

/-!
Highlighting of source lines: the fragments of a line, each with its style.
-/

set_option autoImplicit false

namespace Trampoline.Prompt

inductive Group where
  | keyword
  | boolean
  | number
  | text
  | identifier
  | function
  | operator
  | punctuation
  | comment
deriving DecidableEq, Repr

def Group.style : Group → String
  | .keyword => "bold ansicyan"
  | .boolean => "ansicyan"
  | .number => "ansimagenta"
  | .text => "ansigreen"
  | .function => "bold ansiyellow"
  | .comment => "italic ansigray"
  | .identifier => ""
  | .operator => ""
  | .punctuation => ""

def builtinNames : List String :=
  ["print", "println", "time", "halt", "sleep", "call/cc", "CallCC"]

def groupOf : Lexeme → Group
  | .punctuation _ => .punctuation
  | .number _ => .number
  | .text _ => .text
  | .keyword .true_ => .boolean
  | .keyword .false_ => .boolean
  | .keyword _ => .keyword
  | .name x => if builtinNames.contains x then .function else .identifier
  | .operator _ => .operator

structure Fragment where
  style : String
  text : List Char
deriving DecidableEq, Repr

/-- Text between tokens: only a comment has a style. -/
def gap (cs : List Char) : List Fragment :=
  if cs.contains '#' then
    [⟨"", cs.takeWhile (· != '#')⟩, ⟨Group.comment.style, cs.dropWhile (· != '#')⟩]
  else [⟨"", cs⟩]

def gapIfAny (cs : List Char) : List Fragment := if cs.isEmpty then [] else gap cs

def fragmentsFrom : Nat → List Char → List Token → List Fragment
  | _, cs, [] => gapIfAny cs
  | offset, cs, t :: ts =>
      let lead := t.start.offset - offset
      let width := t.stop.offset - t.start.offset
      let after := cs.drop lead
      gapIfAny (cs.take lead)
        ++ ⟨(groupOf t.lexeme).style, after.take width⟩
        :: fragmentsFrom t.stop.offset (after.drop width) ts

/-- A line that does not split into tokens stays as it is. -/
def highlightLine (line : String) : List Fragment :=
  match tokenize line with
  | .ok ts => if line.isEmpty then [⟨"", []⟩] else fragmentsFrom 0 line.toList ts
  | .error _ => [⟨"", line.toList⟩]

/-- The line of a number. Negative numbers count from the end and must not reach beyond the start;
lines after the end are empty. -/
def lineAt (lines : List String) (n : Int) : Except Failure String :=
  if n < 0 then
    if lines.length < n.natAbs then .error .noSuchLine
    else .ok (lines.getD (lines.length - n.natAbs) "")
  else .ok (lines.getD n.toNat "")

def highlightAt (text : String) (n : Int) : Except Failure (List Fragment) :=
  (lineAt (text.splitOn "\n") n).map highlightLine

def highlightLines (text : String) (ns : List Int) : Except Failure (List (List Fragment)) :=
  ns.mapM (highlightAt text)

end Trampoline.Prompt

import Trampoline.Expr.Basic
import Trampoline.Number.Decimal
import Trampoline.Text.Quoted

/-!
Expressions as JSON text. A dump with an indent puts each item on a line of its own.
-/

set_option autoImplicit false

namespace Trampoline

inductive Dump where
  | null
  | bool (value : Bool)
  | number (value : Float)
  | text (value : String)
  | list (items : List Dump)
  | record (fields : List (String × Dump))

namespace Dump

def escape (c : Char) : List Char :=
  if c = '"' then ['\\', '"']
  else if c = '\\' then ['\\', '\\']
  else if c = '\n' then ['\\', 'n']
  else if c = '\r' then ['\\', 'r']
  else if c = '\t' then ['\\', 't']
  else if c = '\x0c' then ['\\', 'f']
  else if c = '\x08' then ['\\', 'b']
  else if c.toNat < 0x20 then '\\' :: 'u' :: Text.hex 4 c.toNat
  else [c]

def quote (s : String) : String := String.ofList ('"' :: (s.toList.flatMap escape ++ ['"']))

def numberText (x : Float) : String :=
  match Binary64.decode x with
  | .nan => "NaN"
  | .infinite negative => if negative then "-Infinity" else "Infinity"
  | .finite .. => Decimal.text x

/-- A line break and the indentation of a level, or nothing in a dump on one line. -/
def lineBreak (indent : Option Nat) (level : Nat) : String :=
  match indent with
  | none => ""
  | some width => "\n" ++ String.ofList (List.replicate (width * level) ' ')

def separator (indent : Option Nat) (level : Nat) : String :=
  match indent with
  | none => ", "
  | some _ => "," ++ lineBreak indent level

/-- Parts between brackets; no parts leave the brackets together. -/
def enclose (indent : Option Nat) (level : Nat) (opening closing : String)
    (parts : List (List String)) : List String :=
  if parts.isEmpty then [opening, closing]
  else opening :: lineBreak indent (level + 1)
    :: ([separator indent (level + 1)].intercalate parts ++ [lineBreak indent level, closing])

mutual

/-- The text in pieces, which are joined only once. -/
def pieces (indent : Option Nat) (level : Nat) : Dump → List String
  | .null => ["null"]
  | .bool value => [if value then "true" else "false"]
  | .number value => [numberText value]
  | .text value => [quote value]
  | .list items => enclose indent level "[" "]" (itemPieces indent (level + 1) items)
  | .record fields => enclose indent level "\x7b" "\x7d" (fieldPieces indent (level + 1) fields)

def itemPieces (indent : Option Nat) (level : Nat) : List Dump → List (List String)
  | [] => []
  | item :: items => item.pieces indent level :: itemPieces indent level items

def fieldPieces (indent : Option Nat) (level : Nat) : List (String × Dump) → List (List String)
  | [] => []
  | (key, value) :: fields =>
      (quote key :: ": " :: value.pieces indent level) :: fieldPieces indent level fields

end

def render (indent : Option Nat) (d : Dump) : String := String.join (d.pieces indent 0)

def names (xs : List String) : Dump := .list (xs.map .text)

def optional : Option String → Dump
  | none => .null
  | some s => .text s

end Dump

mutual

def Expr.toDump : Expr → Dump
  | .hole => .null
  | .num value => .record [("type", .text "num"), ("value", .number value)]
  | .str value => .record [("type", .text "str"), ("value", .text value)]
  | .bool value => .record [("type", .text "bool"), ("value", .bool value)]
  | .var name => .record [("type", .text "var"), ("name", .text name)]
  | .lambda params body name =>
      .record [("type", .text "lambda"), ("params", .names params), ("body", body.toDump),
        ("name", .optional name)]
  | .call func args =>
      .record [("type", .text "call"), ("func", func.toDump), ("args", .list (Expr.toDumps args))]
  | .cond test yes no =>
      .record [("type", .text "if"), ("cond", test.toDump), ("then", yes.toDump),
        ("else", no.toDump)]
  | .assign target value =>
      .record [("type", .text "assign"), ("target", target.toDump), ("value", value.toDump)]
  | .binary op left right =>
      .record [("type", .text "binary"), ("op", .text op), ("left", left.toDump),
        ("right", right.toDump)]
  | .prog body => .record [("type", .text "prog"), ("body", .list (Expr.toDumps body))]
  | .letIn bindings body =>
      .record [("type", .text "let"), ("bindings", .list (Binding.toDumps bindings)),
        ("body", body.toDump)]
  | .binding b => b.toDump

def Binding.toDump : Binding → Dump
  | .mk name init => .record [("name", .text name), ("def", init.toDump)]

def Expr.toDumps : List Expr → List Dump
  | [] => []
  | e :: es => e.toDump :: Expr.toDumps es

def Binding.toDumps : List Binding → List Dump
  | [] => []
  | b :: bs => b.toDump :: Binding.toDumps bs

end

def Expr.dump (e : Expr) (indent : Option Nat) : String := e.toDump.render indent

end Trampoline

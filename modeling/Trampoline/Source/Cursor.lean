/-!
Positions in a source text, and a cursor that reads it one character at a time.
-/

set_option autoImplicit false

namespace Trampoline

/-- Lines count from one and columns from zero. -/
structure Position where
  offset : Nat := 0
  line : Nat := 1
  column : Nat := 0
deriving DecidableEq, Repr

namespace Position

def advance (p : Position) (c : Char) : Position :=
  if c = '\n' then ⟨p.offset + 1, p.line + 1, 0⟩ else ⟨p.offset + 1, p.line, p.column + 1⟩

/-- One step beyond the end of the text, where there is no character to look at. -/
def past (p : Position) : Position := ⟨p.offset + 1, p.line, p.column + 1⟩

def after (p : Position) (cs : List Char) : Position := cs.foldl advance p

end Position

/-- The characters still to be read, where they start, and the size of the whole text. -/
structure Cursor where
  rest : List Char
  pos : Position := {}
  size : Nat
deriving DecidableEq, Repr

namespace Cursor

def ofSource (source : String) : Cursor :=
  let cs := source.toList
  { rest := cs, size := cs.length }

def peek? (c : Cursor) : Option Char := c.rest.head?

def atEnd (c : Cursor) : Bool := c.rest.isEmpty

/-- The next character; at the end there is none, and the position still moves on. -/
def next (c : Cursor) : Option Char × Cursor :=
  match c.rest with
  | [] => (none, { c with pos := c.pos.past })
  | x :: rest => (some x, { c with rest := rest, pos := c.pos.advance x })

/-- Beyond the end of the text nothing is ahead, not even the empty text. -/
def lookingAt (c : Cursor) (text : List Char) : Bool :=
  decide (c.pos.offset ≤ c.size) && text.isPrefixOf c.rest

/-- Moves over the given characters, which are the next ones. -/
def skip (c : Cursor) (cs : List Char) : Cursor :=
  { c with rest := c.rest.drop cs.length, pos := c.pos.after cs }

end Cursor

end Trampoline

import Trampoline.Source.ParseError

/-!
Splitting a source into tokens: blanks and comments are skipped, and each token is as long as its
class allows.
-/

set_option autoImplicit false

namespace Trampoline

namespace Lexeme

def isBlank (c : Char) : Bool := c == ' ' || c == '\t' || c == '\n'

/-- Letters whose lower case is one of `a` to `z`, with the two letters outside ASCII that have
such a lower case, and `λ` and `_`. -/
def isNameStart (c : Char) : Bool :=
  ('a' ≤ c && c ≤ 'z') || ('A' ≤ c && c ≤ 'Z') || c == '\u0130' || c == '\u212a' || c == 'λ' || c == '_'

def isNameChar (c : Char) : Bool :=
  isNameStart c || "?!-<>=".toList.contains c || Decimal.isDigit c

def isOperatorChar (c : Char) : Bool := "+-*/%=&|<>!".toList.contains c

def isMark (c : Char) : Bool := [',', ';', '(', ')', '\x7b', '\x7d', '[', ']'].contains c

/-- Digits with at most one point, at the front of the text. -/
def numberSlice (cs : List Char) : List Char :=
  let whole := cs.takeWhile Decimal.isDigit
  match cs.dropWhile Decimal.isDigit with
  | '.' :: more => whole ++ '.' :: more.takeWhile Decimal.isDigit
  | _ => whole

/-- A name, or `call/cc` when no name character follows it. -/
def nameSlice (cs : List Char) : List Char :=
  let word := cs.takeWhile isNameChar
  match word, cs.dropWhile isNameChar with
  | ['c', 'a', 'l', 'l'], '/' :: 'c' :: 'c' :: after =>
      if after.head?.any isNameChar then word else word ++ ['/', 'c', 'c']
  | _, _ => word

/-- What follows an opening quote, up to the first unescaped quote or the end of the text. -/
def quotedSlice : List Char → List Char
  | [] => []
  | ['\\'] => ['\\']
  | '\\' :: c :: cs => '\\' :: c :: quotedSlice cs
  | c :: cs => if c = '"' then [c] else c :: quotedSlice cs

/-- The characters that stand between the quotes: a backslash keeps the next one as it is. -/
def unescape : List Char → List Char
  | [] => []
  | ['\\'] => []
  | '\\' :: c :: cs => c :: unescape cs
  | c :: cs => if c = '"' then [] else c :: unescape cs

def ofName (s : String) : Lexeme :=
  match Keyword.ofText? s with
  | some word => .keyword word
  | none => .name s

/-- The lexeme at the front of a text that starts with no blank, and the characters it takes. -/
def munch? : List Char → Option (Lexeme × List Char)
  | [] => none
  | c :: cs =>
      if c = '"' then some (.text (String.ofList (unescape cs)), c :: quotedSlice cs)
      else if Decimal.isDigit c then
        let slice := numberSlice (c :: cs)
        some (.number (Decimal.ofLiteral slice), slice)
      else if isNameStart c then
        let slice := nameSlice (c :: cs)
        some (ofName (String.ofList slice), slice)
      else if isMark c then some (.punctuation c, [c])
      else if isOperatorChar c then
        let slice := (c :: cs).takeWhile isOperatorChar
        some (.operator (String.ofList slice), slice)
      else none

end Lexeme

/-- Blanks and comments ahead; a comment without a line end steps beyond the end of the text. -/
def Position.skipBlanks : Bool → List Char → Position → List Char × Position
  | false, [], p => ([], p)
  | true, [], p => ([], p.past)
  | false, c :: cs, p =>
      if Lexeme.isBlank c then Position.skipBlanks false cs (p.advance c)
      else if c = '#' then Position.skipBlanks true cs (p.advance c)
      else (c :: cs, p)
  | true, c :: cs, p => Position.skipBlanks (c != '\n') cs (p.advance c)

def Cursor.skipBlanks (c : Cursor) : Cursor :=
  let (rest, pos) := Position.skipBlanks false c.rest c.pos
  { c with rest := rest, pos := pos }

inductive Scan where
  | token (token : Token) (cursor : Cursor)
  | ended (cursor : Cursor)
  | stray (c : Char) (cursor : Cursor)

def Cursor.scan (cursor : Cursor) : Scan :=
  let ahead := cursor.skipBlanks
  match ahead.rest with
  | [] => .ended ahead
  | c :: cs =>
      match Lexeme.munch? (c :: cs) with
      | some (lexeme, slice) =>
          let after := ahead.skip slice
          .token ⟨lexeme, ahead.pos, after.pos⟩ after
      | none => .stray c ahead

theorem Lexeme.munch?_ne_nil {cs slice : List Char} {lexeme : Lexeme}
    (found : munch? cs = some (lexeme, slice)) : slice ≠ [] := by
  cases cs with
  | nil => simp [munch?] at found
  | cons c cs =>
      simp only [munch?] at found
      split at found
      · simp_all
        rintro rfl
        simp_all
      split at found
      · rename_i digit
        obtain ⟨-, rfl⟩ := by simpa using found
        simp only [numberSlice, List.takeWhile_cons, digit]
        split <;> simp
      split at found
      · rename_i start
        obtain ⟨-, rfl⟩ := by simpa using found
        have char : isNameChar c = true := by simp [isNameChar, start]
        simp only [nameSlice, List.takeWhile_cons, char]
        split
        · split <;> simp
        · simp
      split at found
      · obtain ⟨-, rfl⟩ := by simpa using found
        simp
      split at found
      · rename_i operator
        obtain ⟨-, rfl⟩ := by simpa using found
        simp [operator]
      · simp at found

theorem Position.length_skipBlanks_le (comment : Bool) (cs : List Char) (p : Position) :
    (Position.skipBlanks comment cs p).1.length ≤ cs.length := by
  induction cs generalizing comment p with
  | nil => cases comment <;> simp [Position.skipBlanks]
  | cons c cs ih =>
      cases comment with
      | true => exact Nat.le_succ_of_le (ih _ _)
      | false =>
          simp only [Position.skipBlanks]
          split
          · exact Nat.le_succ_of_le (ih _ _)
          split
          · exact Nat.le_succ_of_le (ih _ _)
          · simp

/-- Every token takes at least one character. -/
theorem Cursor.length_scan_lt {cursor after : Cursor} {token : Token}
    (found : cursor.scan = .token token after) : after.rest.length < cursor.rest.length := by
  have ahead : cursor.skipBlanks.rest.length ≤ cursor.rest.length :=
    Position.length_skipBlanks_le false cursor.rest cursor.pos
  simp only [Cursor.scan] at found
  split at found
  · cases found
  · rename_i c cs front
    split at found
    · rename_i lexeme slice munched
      cases found
      have taken : slice ≠ [] := Lexeme.munch?_ne_nil munched
      have : 0 < slice.length := List.length_pos_iff.mpr taken
      have : 0 < cursor.skipBlanks.rest.length := by simp [front]
      simp only [Cursor.skip, List.length_drop]
      omega
    · cases found

end Trampoline

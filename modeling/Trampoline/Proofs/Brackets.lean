import Trampoline.Prompt.Bracket
import Trampoline.Proofs.DescentFollows
import Trampoline.Proofs.Splitting

set_option autoImplicit false

namespace Trampoline

namespace Prompt

def isBracket (c : Char) : Bool := isOpening c || isClosing c

def countBracket (depth : Nat) (c : Char) : Nat :=
  if isOpening c then depth + 1 else if isClosing c then depth - 1 else depth

end Prompt

def Lexeme.bracket? : Lexeme → Option Char
  | .punctuation c => if Prompt.isBracket c then some c else none
  | _ => none

def brackets (u : List Lexeme) : List Char := u.filterMap Lexeme.bracket?

section Brackets

variable (u v : List Lexeme)

theorem brackets_append : brackets (u ++ v) = brackets u ++ brackets v := List.filterMap_append

theorem brackets_cons (l : Lexeme) : brackets (l :: u) = l.bracket?.toList ++ brackets u := by
  cases found : l.bracket? with
  | none => exact List.filterMap_cons_none found
  | some c => exact List.filterMap_cons_some found

end Brackets

namespace Prompt

theorem depthAfter_eq (depth : Nat) (t : Token) :
    depthAfter depth t = t.lexeme.bracket?.toList.foldl countBracket depth := by
  obtain ⟨lexeme, start, stop⟩ := t
  cases lexeme with
  | punctuation c =>
      by_cases opens : isOpening c = true
      · simp [depthAfter, Lexeme.bracket?, isBracket, countBracket, opens]
      · by_cases closes : isClosing c = true
        · simp [depthAfter, Lexeme.bracket?, isBracket, countBracket, opens, closes]
        · simp [depthAfter, Lexeme.bracket?, isBracket, opens, closes]
  | _ => rfl

theorem foldl_depthAfter (ts : List Token) (depth : Nat) :
    ts.foldl depthAfter depth = (brackets (ts.map Token.lexeme)).foldl countBracket depth := by
  induction ts generalizing depth with
  | nil => rfl
  | cons t ts ih => rw [List.foldl_cons, ih, List.map_cons, brackets_cons, List.foldl_append, depthAfter_eq]

end Prompt

inductive Zone where
  | code
  | text
  | escape
  | comment

open Prompt (isBracket)

-- The brackets of a text outside of text literals and comments.
def bracketsIn : Zone → List Char → List Char
  | _, [] => []
  | .code, c :: cs =>
      if c = '"' then bracketsIn .text cs
      else if c = '#' then bracketsIn .comment cs
      else if isBracket c then c :: bracketsIn .code cs
      else bracketsIn .code cs
  | .text, c :: cs =>
      if c = '\\' then bracketsIn .escape cs
      else if c = '"' then bracketsIn .code cs
      else bracketsIn .text cs
  | .escape, _ :: cs => bracketsIn .text cs
  | .comment, c :: cs => if c = '\n' then bracketsIn .code cs else bracketsIn .comment cs

theorem bracketsIn_skipBlanks (comment : Bool) (cs : List Char) (p : Position) :
    bracketsIn .code (Position.skipBlanks comment cs p).1 = bracketsIn (if comment then .comment else .code) cs := by
  induction cs generalizing comment p with
  | nil => cases comment <;> rfl
  | cons c cs ih =>
      cases comment with
      | true =>
          by_cases line : c = '\n'
          · subst line
            exact ih false _
          · have inside : (c != '\n') = true := by simpa using line
            simp only [Position.skipBlanks, inside, ih, if_true, bracketsIn, if_neg line]
      | false =>
          simp only [Position.skipBlanks, Bool.false_eq_true, if_false]
          split
          · rename_i blank
            rw [ih]
            rcases Lexeme.isBlank_iff.mp blank with rfl | rfl | rfl <;> rfl
          split
          · rename_i sign
            subst sign
            rw [ih]
            rfl
          · rfl

theorem bracketsIn_ahead (c : Cursor) : bracketsIn .code c.skipBlanks.rest = bracketsIn .code c.rest :=
  bracketsIn_skipBlanks false c.rest c.pos

theorem bracketsIn_text (cs : List Char) :
    bracketsIn .text cs = bracketsIn .code (cs.drop (Lexeme.quotedSlice cs).length) := by
  fun_induction Lexeme.quotedSlice cs with
  | case1 => rfl
  | case2 => rfl
  | case3 c cs ih => simpa [bracketsIn] using ih
  | case4 cs _ _ => simp [bracketsIn]
  | case5 c cs one two other ih =>
      have unescaped : c ≠ '\\' := by
        rintro rfl
        cases cs with
        | nil => exact one rfl rfl
        | cons d cs => exact two d cs rfl rfl
      simpa [bracketsIn, unescaped, other] using ih

theorem bracketsIn_append {u : List Char} (plain : ∀ c ∈ u, c ≠ '"' ∧ c ≠ '#') (rest : List Char) :
    bracketsIn .code (u ++ rest) = u.filter isBracket ++ bracketsIn .code rest := by
  induction u with
  | nil => rfl
  | cons c u ih =>
      obtain ⟨quote, sign⟩ := plain c List.mem_cons_self
      have more := ih fun d member => plain d (List.mem_cons_of_mem _ member)
      by_cases bracket : isBracket c = true
      · simp [bracketsIn, quote, sign, bracket, more]
      · simp [bracketsIn, quote, sign, bracket, more]

def Inert (p : Char → Bool) : Prop :=
  ['"', '#', '(', ')', '\x7b', '\x7d', '[', ']'].all (fun c => !p c) = true

theorem isBracket_iff {c : Char} :
    isBracket c = true ↔ c ∈ ['(', ')', '\x7b', '\x7d', '[', ']'] := by
  simp only [isBracket, Prompt.isOpening, Prompt.isClosing, Bool.or_eq_true, beq_iff_eq, List.mem_cons,
    List.not_mem_nil]
  grind

theorem Inert.bracketsIn {p : Char → Bool} (inert : Inert p) {u : List Char} (inside : ∀ c ∈ u, p c = true)
    (rest : List Char) : bracketsIn .code (u ++ rest) = bracketsIn .code rest := by
  have apart {c : Char} (member : c ∈ u) : c ∉ ['"', '#', '(', ')', '\x7b', '\x7d', '[', ']'] := by
    intro listed
    have outside := List.all_eq_true.mp inert c listed
    rw [inside c member] at outside
    cases outside
  have unbracketed : u.filter isBracket = [] := by
    refine List.filter_eq_nil_iff.mpr fun c member bracket => apart member ?_
    exact List.mem_cons_of_mem _ (List.mem_cons_of_mem _ (isBracket_iff.mp bracket))
  rw [bracketsIn_append, unbracketed, List.nil_append]
  intro c member
  have other := apart member
  simp only [List.mem_cons, not_or] at other
  exact ⟨other.1, other.2.1⟩

def Lexeme.isWordChar (c : Char) : Bool := Lexeme.isNameChar c || c == '/'

theorem Lexeme.nameSlice_wordChars {cs : List Char} : ∀ c ∈ Lexeme.nameSlice cs, Lexeme.isWordChar c = true := by
  intro c member
  rcases Grammar.nameSlice_word cs with call | word
  · rw [call] at member
    exact List.all_eq_true.mp (by decide : "call/cc".toList.all Lexeme.isWordChar = true) c member
  · rw [word] at member
    rw [Lexeme.isWordChar, List.all_eq_true.mp List.all_takeWhile c member]
    rfl

def Lexeme.isNumberChar (c : Char) : Bool := Decimal.isDigit c || c == '.'

theorem Lexeme.numberSlice_numberChars {cs : List Char} :
    ∀ c ∈ Lexeme.numberSlice cs, Lexeme.isNumberChar c = true := by
  have digits {c : Char} {ds : List Char} (member : c ∈ ds.takeWhile Decimal.isDigit) :
      Lexeme.isNumberChar c = true := by
    rw [Lexeme.isNumberChar, List.all_eq_true.mp List.all_takeWhile c member]
    rfl
  intro c member
  simp only [Lexeme.numberSlice] at member
  split at member
  · rcases List.mem_append.mp member with whole | behind
    · exact digits whole
    · rcases List.mem_cons.mp behind with rfl | fraction
      · rfl
      · exact digits fraction
  · exact digits member

theorem inert_word : Inert Lexeme.isWordChar := by unfold Inert; decide

theorem inert_number : Inert Lexeme.isNumberChar := by unfold Inert; decide

theorem inert_operator : Inert Lexeme.isOperatorChar := by unfold Inert; decide

theorem Lexeme.Munched.bracketsIn {l : Lexeme} {cs slice : List Char} (munched : l.Munched cs slice) :
    bracketsIn .code cs = l.bracket?.toList ++ bracketsIn .code (cs.drop slice.length) := by
  obtain ⟨rest, whole⟩ := munched.isPrefix
  have behind : cs.drop slice.length = rest := by rw [← whole, List.drop_left]
  have inert {p : Char → Bool} (inert : Inert p) (inside : ∀ c ∈ slice, p c = true) :
      Trampoline.bracketsIn .code cs = Trampoline.bracketsIn .code (cs.drop slice.length) := by
    rw [behind, ← whole]
    exact inert.bracketsIn inside rest
  cases munched with
  | text cs => exact bracketsIn_text cs
  | number cs _ => exact inert inert_number numberSlice_numberChars
  | word cs _ =>
      rw [inert inert_word nameSlice_wordChars]
      rcases Grammar.ofName_cases (String.ofList (nameSlice (_ :: cs))) with ⟨_, keyword, _⟩ | ⟨name, _⟩
      · rw [keyword]
        rfl
      · rw [name]
        rfl
  | @mark c cs known =>
      have plain : c ≠ '"' ∧ c ≠ '#' := by
        constructor
        · rintro rfl
          cases known
        · rintro rfl
          cases known
      rw [← List.singleton_append, bracketsIn_append (by simpa using plain)]
      by_cases bracket : isBracket c = true
      · simp [bracket?, bracket]
      · simp [bracket?, bracket]
  | operator cs _ => exact inert inert_operator fun c member => List.all_eq_true.mp List.all_takeWhile c member

theorem Tokens.brackets_ofCursor (c : Cursor) {p : Position} (ended : (ofCursor c).ending = .ended p) :
    brackets ((ofCursor c).list.map Token.lexeme) = bracketsIn .code c.rest := by
  fun_induction ofCursor c with
  | case1 c t after found more ih =>
      obtain ⟨slice, munched, _, rfl, _⟩ := Cursor.scan_token found
      rw [List.map_cons, brackets_cons, ih ended, ← bracketsIn_ahead c,
        (Lexeme.munched munched).bracketsIn]
      rfl
  | case2 c after found =>
      rw [← bracketsIn_ahead c, (Cursor.scan_ended found).1]
      rfl
  | case3 => cases ended

theorem brackets_tokenize {text : String} {ts : List Token} (split : tokenize text = .ok ts) :
    brackets (ts.map Token.lexeme) = bracketsIn .code text.toList := by
  rw [tokenize, Tokens.complete] at split
  cases ending : (Tokens.ofSource text).ending with
  | ended p =>
      rw [ending] at split
      cases split
      exact Tokens.brackets_ofCursor (.ofSource text) ending
  | stray c p =>
      rw [ending] at split
      cases split

namespace Grammar

def Terminal.bracket? : Terminal → Option Char
  | .leftParen => some '('
  | .rightParen => some ')'
  | .leftBrace => some '\x7b'
  | .rightBrace => some '\x7d'
  | _ => none

-- A terminal takes the same brackets as the lexeme there would, though it may take fewer or more characters.
theorem Recognised.bracketsIn {terminal : Terminal} {cs slice : List Char}
    (recognised : Recognised terminal cs slice) :
    bracketsIn .code cs = terminal.bracket?.toList ++ bracketsIn .code (cs.drop slice.length) := by
  obtain ⟨rest, whole⟩ := recognised.isPrefix
  have behind : cs.drop slice.length = rest := by rw [← whole, List.drop_left]
  have inert {p : Char → Bool} (inert : Inert p) (inside : ∀ c ∈ slice, p c = true) :
      Trampoline.bracketsIn .code cs = Trampoline.bracketsIn .code (cs.drop slice.length) := by
    rw [behind, ← whole]
    exact inert.bracketsIn inside rest
  cases recognised with
  | name found =>
      refine inert inert_word fun c member => ?_
      unfold nameSlice? at found
      split at found
      · cases found
        exact List.all_eq_true.mp (by decide : "call/cc".toList.all Lexeme.isWordChar = true) c member
      split at found
      · cases found
        rw [Lexeme.isWordChar, isNameChar_wider c (List.all_eq_true.mp List.all_takeWhile c member)]
        rfl
      · cases found
  | keyword word _ =>
      have inside : word.text.toList.all Lexeme.isWordChar = true := by cases word <;> decide
      rw [inert inert_word (List.all_eq_true.mp inside)]
      cases word <;> rfl
  | number cs _ => exact inert inert_number Lexeme.numberSlice_numberChars
  | @text cs slice closed =>
      rw [closedSlice?_eq closed]
      exact bracketsIn_text cs
  | @sign cs entry member _ =>
      have spelled : ∀ entry ∈ operatorTable ++ markTable, entry.1.toList.filter isBracket = entry.2.bracket?.toList ∧
          entry.1.toList.all (fun c => c != '"' && c != '#') = true := by decide
      obtain ⟨brackets, plain⟩ := spelled entry member
      rw [behind, ← whole, bracketsIn_append (by simpa using plain), brackets]

end Grammar

end Trampoline

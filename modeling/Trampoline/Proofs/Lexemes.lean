import Trampoline.Descent
import Trampoline.Grammar.Parser
import Trampoline.Proofs.Computations

set_option autoImplicit false

namespace Trampoline

namespace Position

theorem offset_advance (p : Position) (c : Char) : (p.advance c).offset = p.offset + 1 := by
  unfold advance
  split <;> rfl

theorem offset_after (p : Position) (cs : List Char) : (p.after cs).offset = p.offset + cs.length := by
  induction cs generalizing p with
  | nil => rfl
  | cons c cs ih =>
      have step := ih (p.advance c)
      rw [offset_advance] at step
      simp only [after, List.foldl_cons, List.length_cons] at step ⊢
      omega

theorem skipBlanks_drop (text : List Char) (comment : Bool) (cs : List Char) (p : Position)
    (here : cs = text.drop p.offset) :
    (skipBlanks comment cs p).1 = text.drop (skipBlanks comment cs p).2.offset := by
  induction cs generalizing comment p with
  | nil =>
      cases comment with
      | false => exact here
      | true =>
          have short : text.length ≤ p.offset := List.drop_eq_nil_iff.mp here.symm
          exact (List.drop_eq_nil_iff.mpr (by simp only [skipBlanks, past]; omega)).symm
  | cons c cs ih =>
      have next : cs = text.drop (p.advance c).offset := by
        rw [offset_advance, ← List.drop_drop, ← here]
        rfl
      cases comment with
      | true => exact ih _ _ next
      | false =>
          simp only [skipBlanks]
          split
          · exact ih _ _ next
          split
          · exact ih _ _ next
          · exact here

end Position

namespace Cursor

def In (source : String) (c : Cursor) : Prop := c.rest = source.toList.drop c.pos.offset

variable {source : String} {c : Cursor}

theorem in_ofSource (source : String) : In source (ofSource source) := rfl

theorem in_skipBlanks (inside : c.In source) : c.skipBlanks.In source :=
  Position.skipBlanks_drop source.toList false c.rest c.pos inside

theorem in_skip (inside : c.In source) (slice : List Char) : (c.skip slice).In source := by
  simp only [In, skip] at inside ⊢
  rw [Position.offset_after, inside, List.drop_drop]

theorem scan_token {t : Token} {after : Cursor} (found : c.scan = .token t after) :
    ∃ slice, Lexeme.munch? c.skipBlanks.rest = some (t.lexeme, slice) ∧ t.start = c.skipBlanks.pos ∧
      after = c.skipBlanks.skip slice ∧ t.stop = after.pos := by
  simp only [scan] at found
  split at found
  · cases found
  · rename_i front
    split at found
    · rename_i lexeme slice munched
      cases found
      exact ⟨slice, front ▸ munched, rfl, rfl, rfl⟩
    · cases found

theorem scan_ended {after : Cursor} (found : c.scan = .ended after) :
    c.skipBlanks.rest = [] ∧ after = c.skipBlanks := by
  simp only [scan] at found
  split at found
  · rename_i nothing
    cases found
    exact ⟨nothing, rfl⟩
  · split at found <;> cases found

theorem scan_stray {x : Char} {ahead : Cursor} (found : c.scan = .stray x ahead) :
    Lexeme.munch? c.skipBlanks.rest = none ∧ c.skipBlanks.rest.head? = some x ∧ ahead = c.skipBlanks := by
  simp only [scan] at found
  split at found
  · cases found
  · rename_i front
    split at found
    · cases found
    · rename_i unmunched
      cases found
      rw [front]
      exact ⟨unmunched, rfl, rfl⟩

end Cursor

namespace Tokens

variable {c : Cursor}

theorem ofCursor_eq (c : Cursor) :
    ofCursor c =
      match c.scan with
      | .token t after => ⟨t :: (ofCursor after).list, (ofCursor after).ending⟩
      | .ended after => ⟨[], .ended after.pos⟩
      | .stray x ahead => ⟨[], .stray x ahead.pos⟩ := by
  rw [ofCursor]
  split
  · rename_i found
    rw [found]
  · rename_i found
    rw [found]
  · rename_i found
    rw [found]

theorem ofCursor_cons {t : Token} {rest : List Token} (first : (ofCursor c).list = t :: rest) :
    ∃ after, c.scan = .token t after ∧ ofCursor after = ⟨rest, (ofCursor c).ending⟩ := by
  rw [ofCursor_eq] at first ⊢
  cases found : c.scan with
  | token t' after =>
      rw [found] at first
      cases first
      exact ⟨after, rfl, rfl⟩
  | ended after =>
      rw [found] at first
      cases first
  | stray x ahead =>
      rw [found] at first
      cases first

theorem length_ofCursor_le (c : Cursor) : (ofCursor c).list.length ≤ c.rest.length := by
  fun_induction ofCursor c with
  | case1 c t after found more ih =>
      exact Nat.lt_of_le_of_lt ih (Cursor.length_scan_lt found)
  | case2 => exact Nat.zero_le _
  | case3 => exact Nat.zero_le _

theorem ofCursor_nil {p : Position} (none : (ofCursor c).list = [])
    (ended : (ofCursor c).ending = .ended p) : c.skipBlanks.rest = [] := by
  rw [ofCursor_eq] at none ended
  cases found : c.scan with
  | token t after =>
      rw [found] at none
      cases none
  | ended after =>
      simp only [Cursor.scan] at found
      split at found
      · assumption
      · split at found <;> cases found
  | stray x ahead =>
      rw [found] at ended
      cases ended

end Tokens

namespace Lexeme

theorem numberSlice_isPrefix (cs : List Char) : numberSlice cs <+: cs := by
  have whole := List.takeWhile_append_dropWhile (p := Decimal.isDigit) (l := cs)
  simp only [numberSlice]
  split
  · rename_i more behind
    rw [behind] at whole
    have front := (List.prefix_cons_inj '.').mpr (List.takeWhile_prefix Decimal.isDigit (l := more))
    exact ((List.prefix_append_right_inj _).mpr front).trans ⟨[], by rw [List.append_nil, whole]⟩
  · exact List.takeWhile_prefix _

theorem numberSlice_ne_nil {c : Char} (digit : Decimal.isDigit c = true) (cs : List Char) :
    numberSlice (c :: cs) ≠ [] := by
  simp only [numberSlice, List.takeWhile_cons, digit]
  split <;> simp

theorem nameSlice_isPrefix (cs : List Char) : nameSlice cs <+: cs := by
  have whole := List.takeWhile_append_dropWhile (p := isNameChar) (l := cs)
  simp only [nameSlice]
  split
  · rename_i word after front behind
    rw [behind] at whole
    split
    · exact ⟨_, whole⟩
    · exact ⟨after, by simpa using whole⟩
  · exact List.takeWhile_prefix _

theorem quotedSlice_isPrefix (cs : List Char) : quotedSlice cs <+: cs := by
  fun_induction quotedSlice cs with
  | case1 => exact List.prefix_rfl
  | case2 => exact List.prefix_rfl
  | case3 c cs ih => exact (List.prefix_cons_inj '\\').mpr ((List.prefix_cons_inj c).mpr ih)
  | case4 cs _ _ => exact ⟨cs, rfl⟩
  | case5 c cs _ _ _ ih => exact (List.prefix_cons_inj c).mpr ih

inductive Munched : Lexeme → List Char → List Char → Prop where
  | text (cs : List Char) :
      Munched (.text (String.ofList (unescape cs))) ('"' :: cs) ('"' :: quotedSlice cs)
  | number {c : Char} (cs : List Char) (digit : Decimal.isDigit c = true) :
      Munched (.number (Decimal.ofLiteral (numberSlice (c :: cs)))) (c :: cs) (numberSlice (c :: cs))
  | word {c : Char} (cs : List Char) (start : isNameStart c = true) :
      Munched (ofName (String.ofList (nameSlice (c :: cs)))) (c :: cs) (nameSlice (c :: cs))
  | mark {c : Char} (cs : List Char) (mark : isMark c = true) : Munched (.punctuation c) (c :: cs) [c]
  | operator {c : Char} (cs : List Char) (sign : isOperatorChar c = true) :
      Munched (.operator (String.ofList ((c :: cs).takeWhile isOperatorChar))) (c :: cs)
        ((c :: cs).takeWhile isOperatorChar)

theorem munched {cs slice : List Char} {l : Lexeme} (found : munch? cs = some (l, slice)) :
    l.Munched cs slice := by
  cases cs with
  | nil => cases found
  | cons c cs =>
      simp only [munch?] at found
      split at found
      · rename_i quote
        cases found
        exact quote ▸ .text cs
      split at found
      · rename_i digit
        cases found
        exact .number cs digit
      split at found
      · rename_i start
        cases found
        exact .word cs start
      split at found
      · rename_i mark
        cases found
        exact .mark cs mark
      split at found
      · rename_i sign
        cases found
        exact .operator cs sign
      · cases found

theorem Munched.isPrefix {cs slice : List Char} {l : Lexeme} (munched : l.Munched cs slice) :
    slice <+: cs := by
  cases munched with
  | text cs => exact (List.prefix_cons_inj _).mpr (quotedSlice_isPrefix cs)
  | number => exact numberSlice_isPrefix _
  | word => exact nameSlice_isPrefix _
  | mark cs => exact ⟨cs, rfl⟩
  | operator => exact List.takeWhile_prefix _

theorem Munched.name {cs slice : List Char} {x : String} (munched : (Lexeme.name x).Munched cs slice) :
    x = String.ofList slice := by
  generalize same : Lexeme.name x = l at munched
  cases munched with
  | word cs start =>
      unfold ofName at same
      split at same
      · cases same
      · cases same
        rfl
  | _ => cases same

section Quotes

variable {c : Char} (unquoted : c ≠ '"') (unescaped : c ≠ '\\') (cs : List Char)

include unquoted unescaped

theorem quotedSlice_plain : quotedSlice (c :: cs) = c :: quotedSlice cs := by
  rw [quotedSlice, if_neg unquoted]
  · exact fun escape _ => unescaped escape
  · exact fun _ _ escape _ => unescaped escape

theorem unescape_plain : unescape (c :: cs) = c :: unescape cs := by
  rw [unescape, if_neg unquoted]
  · exact fun escape _ => unescaped escape
  · exact fun _ _ escape _ => unescaped escape

end Quotes

theorem unescape_quotedSlice (cs : List Char) : unescape (quotedSlice cs) = unescape cs := by
  fun_induction quotedSlice cs with
  | case1 => rfl
  | case2 => rfl
  | case3 c cs ih => simp only [unescape, ih]
  | case4 cs _ _ => simp [unescape]
  | case5 c cs one two other ih =>
      have unescaped : c ≠ '\\' := by
        intro escape
        cases cs with
        | nil => exact one escape rfl
        | cons d cs => exact two d cs escape rfl
      rw [unescape_plain other unescaped, unescape_plain other unescaped, ih]

end Lexeme

def Keyword.terminal : Keyword → Grammar.Terminal
  | .let_ => .let_
  | .if_ => .if_
  | .then_ => .then_
  | .else_ => .else_
  | .lambda => .lambda
  | .lambdaSign => .lambdaSign
  | .true_ => .true_
  | .false_ => .false_

namespace Lexeme

def ofOperator? : String → Option Grammar.Terminal
  | "||" => some .orOp
  | "&&" => some .andOp
  | "<=" => some .compareOp
  | ">=" => some .compareOp
  | "==" => some .compareOp
  | "!=" => some .compareOp
  | "<" => some .compareOp
  | ">" => some .compareOp
  | "+" => some .addOp
  | "-" => some .addOp
  | "*" => some .mulOp
  | "/" => some .mulOp
  | "%" => some .mulOp
  | "=" => some .equal
  | _ => none

def ofMark? : Char → Option Grammar.Terminal
  | '(' => some .leftParen
  | ')' => some .rightParen
  | '\x7b' => some .leftBrace
  | '\x7d' => some .rightBrace
  | ',' => some .comma
  | ';' => some .semicolon
  | _ => none

def terminal? : Lexeme → Option Grammar.Terminal
  | .punctuation mark => ofMark? mark
  | .number _ => some .number
  | .text _ => some .text
  | .keyword word => some word.terminal
  | .name _ => some .name
  | .operator symbol => ofOperator? symbol

def Bears (slice : List Char) : Lexeme → Prop
  | .number value => value = Decimal.ofLiteral slice
  | .text value => value = Grammar.literalText slice
  | .name value => value = String.ofList slice
  | .operator symbol => symbol = String.ofList slice
  | _ => True

end Lexeme

namespace Grammar

theorem closedSlice?_eq {cs slice : List Char} (closed : closedSlice? cs = some slice) :
    slice = Lexeme.quotedSlice cs := by
  fun_induction closedSlice? cs generalizing slice with
  | case1 => cases closed
  | case2 => cases closed
  | case3 c cs ih =>
      obtain ⟨inner, found, rfl⟩ := Option.map_eq_some_iff.mp closed
      rw [Lexeme.quotedSlice, ih found]
  | case4 cs _ _ =>
      cases closed
      simp [Lexeme.quotedSlice]
  | case5 c cs one two other ih =>
      obtain ⟨inner, found, rfl⟩ := Option.map_eq_some_iff.mp closed
      rw [Lexeme.quotedSlice, if_neg other, ih found]
      · exact one
      · exact two

theorem named?_none {c : Char} (other : isNameStart c = false) (keywords : List (String × Terminal))
    (cs : List Char) : named? keywords (c :: cs) = none := by
  have apart : c ≠ 'c' := by
    rintro rfl
    cases other
  simp [named?, nameSlice?, other, apart.symm]

theorem digit_not_start {c : Char} (digit : Decimal.isDigit c = true) : isNameStart c = false := by
  have range : 48 ≤ c.toNat ∧ c.toNat ≤ 57 := by
    simpa [Decimal.isDigit, Char.le_def, UInt32.le_iff_toNat_le] using digit
  have apart : ∀ d : Char, 57 < d.toNat → c ≠ d := by
    rintro d beyond rfl
    omega
  have letter : ∀ d : Char, 57 < d.toNat → ¬ d ≤ c := by
    intro d beyond below
    have order : d.toNat ≤ c.toNat := below
    omega
  simp [isNameStart, letter 'a' (by decide), letter 'A' (by decide), apart 'λ' (by decide),
    apart '_' (by decide)]

def Context.admits : Context → Lexeme → Bool
  | .operand, .number _ => true
  | .operand, .text _ => true
  | .operand, .name _ => true
  | .operand, .keyword word => word != .then_ && word != .else_
  | .operand, .punctuation mark => ['(', ')', '\x7b', '\x7d'].contains mark
  | .afterOperand, .operator symbol => (Lexeme.ofOperator? symbol).isSome
  | .afterOperand, .keyword word => word == .then_ || word == .else_
  | .afterOperand, .punctuation mark => (Lexeme.ofMark? mark).isSome
  | .binderHead, .name _ => true
  | .binderHead, .punctuation mark => mark == '('
  | .binderOpen, .punctuation mark => mark == '('
  | .listItem, .name _ => true
  | .listItem, .punctuation mark => mark == ')'
  | .afterParam, .punctuation mark => mark == ',' || mark == ')'
  | .afterVariable, .operator symbol => symbol == "="
  | _, _ => false

theorem recognise_text {cs : List Char} (closed : (closedSlice? cs).isSome = true) :
    Context.operand.recognise? ('"' :: cs) = some (.text, '"' :: Lexeme.quotedSlice cs) := by
  obtain ⟨slice, found⟩ := Option.isSome_iff_exists.mp closed
  have digit : Decimal.isDigit '"' = false := by decide
  rw [← closedSlice?_eq found]
  simp [Context.recognise?, named?_none (c := '"') (by decide), literal?, numberSlice?, digit, textSlice?,
    found]

theorem recognise_number {c : Char} (digit : Decimal.isDigit c = true) (cs : List Char) :
    Context.operand.recognise? (c :: cs) = some (.number, Lexeme.numberSlice (c :: cs)) := by
  simp [Context.recognise?, named?_none (digit_not_start digit), literal?, numberSlice?, digit]

theorem takeWhile_of_all {p q : Char → Bool} (wider : ∀ c, p c = true → q c = true) (cs : List Char)
    (all : ∀ c ∈ cs.takeWhile q, p c = true) : cs.takeWhile p = cs.takeWhile q := by
  induction cs with
  | nil => rfl
  | cons c cs ih =>
      by_cases inside : q c = true
      · rw [List.takeWhile_cons_of_pos inside] at all ⊢
        have narrow := all c List.mem_cons_self
        rw [List.takeWhile_cons_of_pos narrow, ih fun d member => all d (List.mem_cons_of_mem c member)]
      · have outside : ¬ p c = true := fun narrow => inside (wider c narrow)
        rw [List.takeWhile_cons_of_neg inside, List.takeWhile_cons_of_neg outside]

theorem isNameStart_wider (c : Char) (start : isNameStart c = true) : Lexeme.isNameStart c = true := by
  simp only [isNameStart, Lexeme.isNameStart, Bool.or_eq_true] at start ⊢
  grind

theorem isNameChar_wider (c : Char) (char : isNameChar c = true) : Lexeme.isNameChar c = true := by
  have start := isNameStart_wider c
  simp only [isNameChar, Lexeme.isNameChar, Bool.or_eq_true] at char ⊢
  grind

theorem start_of_char {c : Char} (start : Lexeme.isNameStart c = true) (char : isNameChar c = true) :
    isNameStart c = true := by
  have dotted : c ≠ '\u0130' := by
    rintro rfl
    exact absurd char (by decide)
  have kelvin : c ≠ '\u212a' := by
    rintro rfl
    exact absurd char (by decide)
  simpa [isNameStart, Lexeme.isNameStart, dotted, kelvin] using start

theorem nameSlice_call (rest : List Char) (free : rest.head?.any Lexeme.isNameChar = false) :
    Lexeme.nameSlice ("call/cc".toList ++ rest) = "call/cc".toList := by
  have word : ("call/cc".toList ++ rest).takeWhile Lexeme.isNameChar = ['c', 'a', 'l', 'l'] := rfl
  have behind : ("call/cc".toList ++ rest).dropWhile Lexeme.isNameChar = '/' :: 'c' :: 'c' :: rest := rfl
  simp only [Lexeme.nameSlice, word, behind, free]
  rfl

theorem nameSlice_word (cs : List Char) :
    Lexeme.nameSlice cs = "call/cc".toList ∨ Lexeme.nameSlice cs = cs.takeWhile Lexeme.isNameChar := by
  simp only [Lexeme.nameSlice]
  split
  · rename_i word after front behind
    split
    · exact .inr rfl
    · rw [front]
      exact .inl rfl
  · exact .inr rfl

theorem nameSlice?_eq {c : Char} {cs : List Char} (start : Lexeme.isNameStart c = true)
    (known : Lexeme.nameSlice (c :: cs) = "call/cc".toList ∨
      ∀ d ∈ Lexeme.nameSlice (c :: cs), isNameChar d = true)
    (apart : ∀ d rest, c :: cs = "call/cc".toList ++ d :: rest → Lexeme.isNameChar d = false) :
    nameSlice? (c :: cs) = some (Lexeme.nameSlice (c :: cs)) := by
  by_cases call : "call/cc".toList.isPrefixOf (c :: cs) = true
  · obtain ⟨rest, same⟩ := List.isPrefixOf_iff_prefix.mp call
    have free : rest.head?.any Lexeme.isNameChar = false := by
      cases rest with
      | nil => rfl
      | cons d rest => exact apart d rest same.symm
    rw [nameSlice?, if_pos call, ← same, nameSlice_call rest free]
  · have other : Lexeme.nameSlice (c :: cs) ≠ "call/cc".toList := by
      intro same
      have front := Lexeme.nameSlice_isPrefix (c :: cs)
      exact call (List.isPrefixOf_iff_prefix.mpr (same ▸ front))
    have word := (nameSlice_word (c :: cs)).resolve_left other
    have all := known.resolve_left other
    have char : Lexeme.isNameChar c = true := by simp [Lexeme.isNameChar, start]
    rw [word] at all ⊢
    have first : isNameChar c = true := all c (by simp [char])
    rw [nameSlice?, if_neg call, if_pos (by simp [start_of_char start first]),
      takeWhile_of_all isNameChar_wider _ all]

def keywordOf? (keywords : List (String × Terminal)) (slice : List Char) : Option (String × Terminal) :=
  keywords.find? fun entry => entry.1.toList == slice

theorem named?_eq (keywords : List (String × Terminal)) (cs : List Char) :
    named? keywords cs =
      (nameSlice? cs).map fun slice => (((keywordOf? keywords slice).map Prod.snd).getD .name, slice) := rfl

theorem ofName_cases (s : String) :
    (∃ word : Keyword, Lexeme.ofName s = .keyword word ∧ s = word.text) ∨
      (Lexeme.ofName s = .name s ∧ Keyword.ofText? s = none) := by
  cases found : Keyword.ofText? s with
  | none => exact .inr ⟨by simp [Lexeme.ofName, found], rfl⟩
  | some word =>
      have same := List.find?_some found
      exact .inl ⟨word, by simp [Lexeme.ofName, found], (beq_iff_eq.mp same).symm⟩

theorem named?_name {keywords : List (String × Terminal)} (few : ∀ entry ∈ keywords, entry ∈ words)
    {cs slice : List Char} (found : nameSlice? cs = some slice)
    (free : Keyword.ofText? (String.ofList slice) = none) : named? keywords cs = some (.name, slice) := by
  have none : keywordOf? keywords slice = Option.none := by
    refine List.find?_eq_none.mpr ?_
    intro entry member same
    have spelling : entry.1 = String.ofList slice := by
      rw [← beq_iff_eq.mp same, String.ofList_toList]
    have reserved : ∀ entry ∈ words, (Keyword.ofText? entry.1).isSome = true := by decide
    have some := reserved entry (few entry member)
    rw [spelling, free] at some
    cases some
  simp [named?_eq, found, none]

theorem named?_keyword {cs : List Char} {word : Keyword} (found : nameSlice? cs = some word.text.toList)
    (operand : (word != .then_ && word != .else_) = true) :
    named? operandWords cs = some (word.terminal, word.text.toList) := by
  rw [named?, found]
  cases word with
  | then_ => cases operand
  | else_ => cases operand
  | _ => rfl

theorem recognise_mark {context : Context} {mark : Char}
    (admitted : context.admits (.punctuation mark) = true) (cs : List Char) :
    ∃ terminal, context.recognise? (mark :: cs) = some (terminal, [mark]) ∧
      Lexeme.ofMark? mark = some terminal := by
  cases context with
  | operand =>
      simp only [Context.admits, List.contains_eq_mem, List.mem_cons, List.not_mem_nil, or_false,
        decide_eq_true_eq] at admitted
      rcases admitted with rfl | rfl | rfl | rfl <;> exact ⟨_, rfl, rfl⟩
  | afterOperand =>
      obtain ⟨terminal, known⟩ := Option.isSome_iff_exists.mp admitted
      refine ⟨terminal, ?_, known⟩
      unfold Lexeme.ofMark? at known
      split at known <;> cases known <;> rfl
  | binderHead =>
      cases beq_iff_eq.mp admitted
      exact ⟨_, rfl, rfl⟩
  | binderOpen =>
      cases beq_iff_eq.mp admitted
      exact ⟨_, rfl, rfl⟩
  | listItem =>
      cases beq_iff_eq.mp admitted
      exact ⟨_, rfl, rfl⟩
  | afterParam =>
      simp only [Context.admits, Bool.or_eq_true, beq_iff_eq] at admitted
      rcases admitted with rfl | rfl <;> exact ⟨_, rfl, rfl⟩
  | afterVariable => cases admitted

theorem recognise_operator {symbol : String} {slice rest : List Char} {terminal : Terminal}
    (spelling : symbol = String.ofList slice) (free : rest.head?.any Lexeme.isOperatorChar = false)
    (known : Lexeme.ofOperator? symbol = some terminal) :
    Context.afterOperand.recognise? (slice ++ rest) = some (terminal, slice) := by
  have text : slice = symbol.toList := by rw [spelling, String.toList_ofList]
  subst text
  unfold Lexeme.ofOperator? at known
  -- Only an equals sign behind it could make one of the known operators longer.
  cases rest with
  | nil => split at known <;> cases known <;> rfl
  | cons d rest =>
      have other : '=' ≠ d := by
        rintro rfl
        cases free
      split at known <;> cases known <;>
        simp [Context.recognise?, spelled?, operatorTable, List.isPrefixOf, other]

end Grammar

-- A lexeme that both front ends read alike from the front of a text: the characters of a name are known to
-- both, the text literal is closed, and no name character follows `call/cc`.
structure Lexeme.PlainAt (l : Lexeme) (cs : List Char) : Prop where
  name : ∀ x, l = .name x → x = "call/cc" ∨ ∀ c ∈ x.toList, Grammar.isNameChar c = true
  closed : ∀ x, l = .text x → (Grammar.closedSlice? cs.tail).isSome = true
  apart : ∀ c rest, cs = "call/cc".toList ++ c :: rest → isNameChar c = false

def Lexeme.plainAt (l : Lexeme) (cs : List Char) : Bool :=
  (match l with
    | .name x => x == "call/cc" || x.toList.all Grammar.isNameChar
    | .text _ => (Grammar.closedSlice? cs.tail).isSome
    | _ => true) &&
    !("call/cc".toList.isPrefixOf cs && (cs.drop 7).head?.any isNameChar)

theorem Lexeme.plainAt_iff {l : Lexeme} {cs : List Char} : l.plainAt cs = true ↔ l.PlainAt cs := by
  have apart : ("call/cc".toList.isPrefixOf cs && (cs.drop 7).head?.any isNameChar) = false ↔
      ∀ c rest, cs = "call/cc".toList ++ c :: rest → isNameChar c = false := by
    constructor
    · rintro none c rest rfl
      simpa using none
    · intro apart
      by_cases call : "call/cc".toList.isPrefixOf cs = true
      · obtain ⟨rest, rfl⟩ := List.isPrefixOf_iff_prefix.mp call
        cases rest with
        | nil => rfl
        | cons c rest => simpa using apart c rest rfl
      · rw [Bool.eq_false_iff.mpr call, Bool.false_and]
  constructor
  · intro plain
    simp only [plainAt, Bool.and_eq_true, Bool.not_eq_true'] at plain
    refine ⟨?_, ?_, apart.mp plain.2⟩
    · rintro x rfl
      simpa using plain.1
    · rintro x rfl
      exact plain.1
  · intro plain
    simp only [plainAt, Bool.and_eq_true, Bool.not_eq_true']
    refine ⟨?_, apart.mpr plain.apart⟩
    cases l with
    | name x => simpa using plain.name x rfl
    | text x => exact plain.closed x rfl
    | _ => rfl

instance (l : Lexeme) (cs : List Char) : Decidable (l.PlainAt cs) :=
  decidable_of_iff _ Lexeme.plainAt_iff

namespace Grammar

theorem recognise_word {context : Context} {c : Char} {cs : List Char} {l : Lexeme}
    (start : Lexeme.isNameStart c = true)
    (word : l = Lexeme.ofName (String.ofList (Lexeme.nameSlice (c :: cs)))) (plain : l.PlainAt (c :: cs))
    (admitted : context.admits l = true) :
    ∃ terminal, context.recognise? (c :: cs) = some (terminal, Lexeme.nameSlice (c :: cs)) ∧
      l.terminal? = some terminal ∧ l.Bears (Lexeme.nameSlice (c :: cs)) := by
  have front := Lexeme.nameSlice_isPrefix (c :: cs)
  rcases ofName_cases (String.ofList (Lexeme.nameSlice (c :: cs))) with ⟨k, keyword, text⟩ | ⟨name, free⟩
  · have slice : Lexeme.nameSlice (c :: cs) = k.text.toList := by rw [← text, String.toList_ofList]
    rw [keyword] at word
    subst word
    cases context with
    | operand =>
        have known : k.text.toList.all isNameChar = true := by cases k <;> rfl
        have found := nameSlice?_eq start (.inr (slice ▸ List.all_eq_true.mp known)) plain.apart
        rw [slice] at found ⊢
        exact ⟨k.terminal, by rw [Context.recognise?, named?_keyword found admitted]; rfl, rfl, trivial⟩
    | afterOperand =>
        rw [slice] at front ⊢
        obtain ⟨rest, same⟩ := front
        rw [← same]
        cases k with
        | then_ => exact ⟨.then_, rfl, rfl, trivial⟩
        | else_ => exact ⟨.else_, rfl, rfl, trivial⟩
        | _ => cases admitted
    | _ => cases admitted
  · rw [name] at word
    subst word
    have known : Lexeme.nameSlice (c :: cs) = "call/cc".toList ∨
        ∀ d ∈ Lexeme.nameSlice (c :: cs), isNameChar d = true := by
      rcases plain.name _ rfl with same | all
      · exact .inl (by rw [← same, String.toList_ofList])
      · exact .inr (by simpa using all)
    have found := nameSlice?_eq start known plain.apart
    have named : ∀ keywords : List (String × Terminal), (∀ entry ∈ keywords, entry ∈ words) →
        named? keywords (c :: cs) = some (.name, Lexeme.nameSlice (c :: cs)) :=
      fun _ few => named?_name few found free
    refine ⟨.name, ?_, rfl, rfl⟩
    cases context with
    | operand => rw [Context.recognise?, named operandWords (by decide)]; rfl
    | binderHead => rw [Context.recognise?, named [] (by simp)]; rfl
    | listItem => rw [Context.recognise?, named [] (by simp)]; rfl
    | _ => cases admitted

theorem recognise_of_munched {context : Context} {cs slice : List Char} {l : Lexeme}
    (munched : l.Munched cs slice) (plain : l.PlainAt cs) (admitted : context.admits l = true) :
    ∃ terminal, context.recognise? cs = some (terminal, slice) ∧ l.terminal? = some terminal ∧
      l.Bears slice := by
  cases munched with
  | text cs =>
      cases context with
      | operand =>
          refine ⟨.text, recognise_text (plain.closed _ rfl), rfl, ?_⟩
          simp [Lexeme.Bears, literalText, Lexeme.unescape_quotedSlice]
      | _ => cases admitted
  | number cs digit =>
      cases context with
      | operand => exact ⟨.number, recognise_number digit cs, rfl, rfl⟩
      | _ => cases admitted
  | word cs start => exact recognise_word start rfl plain admitted
  | mark cs =>
      obtain ⟨terminal, found, known⟩ := recognise_mark admitted cs
      exact ⟨terminal, found, known, trivial⟩
  | @operator c cs sign =>
      have whole := List.takeWhile_append_dropWhile (p := Lexeme.isOperatorChar) (l := c :: cs)
      cases context with
      | afterOperand =>
          obtain ⟨terminal, known⟩ := Option.isSome_iff_exists.mp admitted
          have free : ((c :: cs).dropWhile Lexeme.isOperatorChar).head?.any Lexeme.isOperatorChar = false := by
            have behind := List.head?_dropWhile_not Lexeme.isOperatorChar (c :: cs)
            cases first : ((c :: cs).dropWhile Lexeme.isOperatorChar).head? with
            | none => rfl
            | some d => simpa [first] using behind
          have found := recognise_operator rfl free known
          rw [whole] at found
          exact ⟨terminal, found, known, rfl⟩
      | afterVariable =>
          have text := congrArg String.toList (beq_iff_eq.mp admitted)
          rw [String.toList_ofList] at text
          rw [text] at whole ⊢
          rw [← whole]
          exact ⟨.equal, rfl, rfl, rfl⟩
      | _ => cases admitted

inductive Recognised : Terminal → List Char → List Char → Prop where
  | name {cs slice : List Char} (found : nameSlice? cs = some slice) : Recognised .name cs slice
  | keyword {cs : List Char} (word : Keyword) (front : word.text.toList <+: cs) :
      Recognised word.terminal cs word.text.toList
  | number {c : Char} (cs : List Char) (digit : Decimal.isDigit c = true) :
      Recognised .number (c :: cs) (Lexeme.numberSlice (c :: cs))
  | text {cs slice : List Char} (closed : closedSlice? cs = some slice) :
      Recognised .text ('"' :: cs) ('"' :: slice)
  | sign {cs : List Char} {entry : String × Terminal} (member : entry ∈ operatorTable ++ markTable)
      (front : entry.1.toList <+: cs) : Recognised entry.2 cs entry.1.toList

theorem keyword_of_words {entry : String × Terminal} (member : entry ∈ words) :
    ∃ word : Keyword, entry = (word.text, word.terminal) := by
  simp only [words, operandWords, List.cons_append, List.nil_append, List.mem_cons, List.not_mem_nil,
    or_false] at member
  rcases member with rfl | rfl | rfl | rfl | rfl | rfl | rfl | rfl
  · exact ⟨.true_, rfl⟩
  · exact ⟨.false_, rfl⟩
  · exact ⟨.if_, rfl⟩
  · exact ⟨.lambda, rfl⟩
  · exact ⟨.lambdaSign, rfl⟩
  · exact ⟨.let_, rfl⟩
  · exact ⟨.then_, rfl⟩
  · exact ⟨.else_, rfl⟩

theorem recognised_spelled {table : List (String × Terminal)} {cs slice : List Char} {terminal : Terminal}
    (known : ∀ entry ∈ table, entry ∈ operatorTable ++ markTable ∨ entry ∈ words)
    (found : spelled? table cs = some (terminal, slice)) : Recognised terminal cs slice := by
  obtain ⟨⟨spelling, terminal'⟩, first, same⟩ := Option.map_eq_some_iff.mp found
  have front : spelling.toList.isPrefixOf cs = true := by simpa using List.find?_some first
  have front := List.isPrefixOf_iff_prefix.mp front
  cases same
  rcases known _ (List.mem_of_find?_eq_some first) with sign | listed
  · exact .sign sign front
  · obtain ⟨word, same⟩ := keyword_of_words listed
    cases same
    exact .keyword word front

theorem nameSlice?_isPrefix {cs slice : List Char} (found : nameSlice? cs = some slice) : slice <+: cs := by
  unfold nameSlice? at found
  split at found
  · rename_i call
    cases found
    exact List.isPrefixOf_iff_prefix.mp call
  split at found
  · cases found
    exact List.takeWhile_prefix _
  · cases found

theorem nameSlice?_ne_nil {cs slice : List Char} (found : nameSlice? cs = some slice) : slice ≠ [] := by
  unfold nameSlice? at found
  split at found
  · cases found
    decide
  split at found
  · rename_i start
    cases found
    cases cs with
    | nil => cases start
    | cons c cs =>
        have start : isNameStart c = true := start
        simp [isNameChar, start]
  · cases found

theorem recognised_named {keywords : List (String × Terminal)} {cs slice : List Char} {terminal : Terminal}
    (known : ∀ entry ∈ keywords, entry ∈ words) (found : named? keywords cs = some (terminal, slice)) :
    Recognised terminal cs slice := by
  rw [named?_eq] at found
  obtain ⟨taken, sliced, same⟩ := Option.map_eq_some_iff.mp found
  injection same with which slices
  subst slices which
  cases first : keywordOf? keywords taken with
  | none => exact .name sliced
  | some entry =>
      obtain ⟨word, rfl⟩ := keyword_of_words (known entry (List.mem_of_find?_eq_some first))
      have text : word.text.toList = taken := by simpa using List.find?_some first
      subst text
      exact .keyword word (nameSlice?_isPrefix sliced)

theorem recognised_literal {cs slice : List Char} {terminal : Terminal}
    (found : literal? cs = some (terminal, slice)) : Recognised terminal cs slice := by
  rcases Option.or_eq_some_iff.mp found with number | ⟨_, text⟩
  · obtain ⟨taken, sliced, same⟩ := Option.map_eq_some_iff.mp number
    injection same with which slices
    subst which slices
    cases cs with
    | nil => cases sliced
    | cons c cs =>
        cases digit : Decimal.isDigit c with
        | false => simp [numberSlice?, digit] at sliced
        | true =>
            have slice : Lexeme.numberSlice (c :: cs) = taken := by simpa [numberSlice?, digit] using sliced
            exact slice ▸ .number cs digit
  · obtain ⟨taken, sliced, same⟩ := Option.map_eq_some_iff.mp text
    cases same
    unfold textSlice? at sliced
    split at sliced
    · obtain ⟨inner, closed, rfl⟩ := Option.map_eq_some_iff.mp sliced
      exact .text closed
    · cases sliced

theorem recognised {context : Context} {cs slice : List Char} {terminal : Terminal}
    (found : context.recognise? cs = some (terminal, slice)) : Recognised terminal cs slice := by
  cases context with
  | operand =>
      rcases Option.or_eq_some_iff.mp found with named | ⟨_, found⟩
      · exact recognised_named (by decide) named
      · rcases Option.or_eq_some_iff.mp found with literal | ⟨_, spelled⟩
        · exact recognised_literal literal
        · exact recognised_spelled (by decide) spelled
  | binderHead | listItem =>
      rcases Option.or_eq_some_iff.mp found with named | ⟨_, spelled⟩
      · exact recognised_named (by decide) named
      · exact recognised_spelled (by decide) spelled
  | _ => exact recognised_spelled (by decide) found

theorem Recognised.isPrefix {terminal : Terminal} {cs slice : List Char}
    (recognised : Recognised terminal cs slice) : slice <+: cs := by
  cases recognised with
  | name found => exact nameSlice?_isPrefix found
  | keyword word front => exact front
  | number cs digit => exact Lexeme.numberSlice_isPrefix _
  | @text cs slice closed =>
      rw [closedSlice?_eq closed]
      exact (List.prefix_cons_inj _).mpr (Lexeme.quotedSlice_isPrefix cs)
  | sign member front => exact front

theorem Recognised.ne_nil {terminal : Terminal} {cs slice : List Char}
    (recognised : Recognised terminal cs slice) : slice ≠ [] := by
  cases recognised with
  | name found => exact nameSlice?_ne_nil found
  | keyword word front => cases word <;> exact List.cons_ne_nil _ _
  | number cs digit => exact Lexeme.numberSlice_ne_nil digit cs
  | text closed => exact List.cons_ne_nil _ _
  | @sign _ entry member front =>
      have listed : ∀ entry ∈ operatorTable ++ markTable, entry.1.toList ≠ [] := by decide
      exact listed entry member

theorem munch?_keyword (word : Keyword) (rest : List Char) :
    Lexeme.munch? (word.text.toList ++ rest) =
      some (Lexeme.ofName (String.ofList (Lexeme.nameSlice (word.text.toList ++ rest))),
        Lexeme.nameSlice (word.text.toList ++ rest)) := by
  cases word <;> rfl

theorem munch?_operator {entry : String × Terminal} (member : entry ∈ operatorTable) (rest : List Char) :
    Lexeme.munch? (entry.1.toList ++ rest) =
      some (.operator (String.ofList ((entry.1.toList ++ rest).takeWhile Lexeme.isOperatorChar)),
        (entry.1.toList ++ rest).takeWhile Lexeme.isOperatorChar) := by
  simp only [operatorTable, List.mem_cons, List.not_mem_nil, or_false] at member
  rcases member with rfl | rfl | rfl | rfl | rfl | rfl | rfl | rfl | rfl | rfl | rfl | rfl | rfl | rfl <;> rfl

theorem munch?_mark {entry : String × Terminal} (member : entry ∈ markTable) (rest : List Char) :
    ∃ mark, Lexeme.munch? (entry.1.toList ++ rest) = some (.punctuation mark, [mark]) ∧
      Lexeme.ofMark? mark = some entry.2 := by
  simp only [markTable, bracketTable, List.cons_append, List.nil_append, List.mem_cons, List.not_mem_nil,
    or_false] at member
  rcases member with rfl | rfl | rfl | rfl | rfl | rfl <;> exact ⟨_, rfl, rfl⟩

theorem bears_of_recognised {terminal : Terminal} {cs slice : List Char} {l : Lexeme}
    (recognised : Recognised terminal cs slice) (munched : Lexeme.munch? cs = some (l, slice))
    (names : terminal = .name ↔ ∃ x, l = .name x) : l.terminal? = some terminal ∧ l.Bears slice := by
  cases recognised with
  | name =>
      obtain ⟨x, rfl⟩ := names.mp rfl
      exact ⟨rfl, Lexeme.munched munched |>.name⟩
  | keyword word front =>
      obtain ⟨rest, rfl⟩ := front
      have found := munched.symm.trans (munch?_keyword word rest)
      injection found with found
      injection found with lexeme slice
      rw [← slice, String.ofList_toList] at lexeme
      have known : Lexeme.ofName word.text = .keyword word := by cases word <;> rfl
      rw [lexeme, known]
      exact ⟨rfl, trivial⟩
  | @number c cs digit =>
      have other : c ≠ '"' := by
        rintro rfl
        cases digit
      simp only [Lexeme.munch?, if_neg other, if_pos digit] at munched
      cases munched
      exact ⟨rfl, rfl⟩
  | text closed =>
      cases munched
      refine ⟨rfl, ?_⟩
      simp [Lexeme.Bears, literalText, Lexeme.unescape_quotedSlice]
  | @sign _ entry member front =>
      obtain ⟨rest, rfl⟩ := front
      rcases List.mem_append.mp member with operator | mark
      · have found := munched.symm.trans (munch?_operator operator rest)
        injection found with found
        injection found with lexeme slice
        have known : ∀ entry ∈ operatorTable, Lexeme.ofOperator? entry.1 = some entry.2 := by decide
        rw [← slice] at lexeme
        rw [lexeme]
        refine ⟨?_, rfl⟩
        rw [Lexeme.terminal?, String.ofList_toList]
        exact known entry operator
      · obtain ⟨c, found, known⟩ := munch?_mark mark rest
        injection munched.symm.trans found with found
        injection found with lexeme _
        rw [lexeme]
        exact ⟨known, trivial⟩

end Grammar

end Trampoline

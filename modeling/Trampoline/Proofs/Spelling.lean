import Trampoline.Proofs.Lexemes

set_option autoImplicit false

namespace Trampoline

namespace Lexeme

inductive Escaped : List Char → List Char → Prop where
  | nil : Escaped [] []
  | plain {c : Char} {raw text : List Char} :
      c ≠ '"' → c ≠ '\\' → Escaped raw text → Escaped (c :: raw) (c :: text)
  | escape {c : Char} {raw text : List Char} : Escaped raw text → Escaped ('\\' :: c :: raw) (c :: text)

def Digits (cs : List Char) : Prop := ∀ c ∈ cs, Decimal.isDigit c = true

-- The texts of the lexemes. A text literal may lack its closing quote, and then also the character that its
-- last backslash would keep.
inductive Spelled : Lexeme → List Char → Prop where
  | mark {c : Char} : isMark c = true → Spelled (.punctuation c) [c]
  | operator {c : Char} {cs : List Char} : (∀ d ∈ c :: cs, isOperatorChar d = true) →
      Spelled (.operator (String.ofList (c :: cs))) (c :: cs)
  | whole {d : Char} {ds : List Char} : Digits (d :: ds) →
      Spelled (.number (Decimal.ofLiteral (d :: ds))) (d :: ds)
  | decimal {d : Char} {ds fraction : List Char} : Digits (d :: ds) → Digits fraction →
      Spelled (.number (Decimal.ofLiteral (d :: ds ++ '.' :: fraction))) (d :: ds ++ '.' :: fraction)
  | closed {raw text : List Char} : Escaped raw text →
      Spelled (.text (String.ofList text)) ('"' :: (raw ++ ['"']))
  | open_ {raw text : List Char} : Escaped raw text → Spelled (.text (String.ofList text)) ('"' :: raw)
  | broken {raw text : List Char} : Escaped raw text →
      Spelled (.text (String.ofList text)) ('"' :: (raw ++ ['\\']))
  | word {c : Char} {cs : List Char} : isNameStart c = true → (∀ d ∈ cs, isNameChar d = true) →
      Spelled (ofName (String.ofList (c :: cs))) (c :: cs)
  | slashed : Spelled (.name "call/cc") "call/cc".toList

def Unextended (slice after : List Char) : Prop := ∀ c l, after.head? = some c → ¬ Spelled l (slice ++ [c])

def Slashed (after : List Char) : Prop :=
  ∃ rest, after = '/' :: 'c' :: 'c' :: rest ∧ rest.head?.any isNameChar = false

structure Cut (l : Lexeme) (slice after : List Char) : Prop where
  spelled : Spelled l slice
  unextended : Unextended slice after
  unslashed : slice = "call".toList → ¬ Slashed after
  free : slice = "call/cc".toList → after.head?.any isNameChar = false

section Classes

variable {c : Char}

theorem mark_apart (mark : isMark c = true) :
    c ≠ '"' ∧ Decimal.isDigit c = false ∧ isNameStart c = false := by
  have listed : [',', ';', '(', ')', '\x7b', '\x7d', '[', ']'].all (fun d =>
      d != '"' && !Decimal.isDigit d && !isNameStart d) = true := by decide
  simpa [and_assoc] using List.all_eq_true.mp listed c (by simpa [isMark] using mark)

theorem operator_apart (sign : isOperatorChar c = true) :
    c ≠ '"' ∧ Decimal.isDigit c = false ∧ isNameStart c = false ∧ isMark c = false := by
  have listed : "+-*/%=&|<>!".toList.all (fun d =>
      d != '"' && !Decimal.isDigit d && !isNameStart d && !isMark d) = true := by decide
  simpa [and_assoc] using List.all_eq_true.mp listed c (by simpa [isOperatorChar] using sign)

theorem digit_apart (digit : Decimal.isDigit c = true) : c ≠ '"' := by
  rintro rfl
  cases digit

theorem start_apart (start : isNameStart c = true) : c ≠ '"' ∧ Decimal.isDigit c = false := by
  refine ⟨?_, ?_⟩
  · rintro rfl
    cases start
  · cases digit : Decimal.isDigit c with
    | false => rfl
    | true =>
        have narrow := Grammar.start_of_char start (by simp [Grammar.isNameChar, digit])
        exact absurd narrow (by simp [Grammar.digit_not_start digit])

end Classes

section Munching

variable {c : Char}

theorem munch?_quote (cs : List Char) :
    munch? ('"' :: cs) = some (.text (String.ofList (unescape cs)), '"' :: quotedSlice cs) := by
  simp [munch?]

theorem munch?_digit (digit : Decimal.isDigit c = true) (cs : List Char) :
    munch? (c :: cs) =
      some (.number (Decimal.ofLiteral (numberSlice (c :: cs))), numberSlice (c :: cs)) := by
  simp [munch?, digit_apart digit, digit]

theorem munch?_start (start : isNameStart c = true) (cs : List Char) :
    munch? (c :: cs) = some (ofName (String.ofList (nameSlice (c :: cs))), nameSlice (c :: cs)) := by
  obtain ⟨quote, digit⟩ := start_apart start
  simp [munch?, quote, digit, start]

theorem munch?_isMark (mark : isMark c = true) (cs : List Char) :
    munch? (c :: cs) = some (.punctuation c, [c]) := by
  obtain ⟨quote, digit, start⟩ := mark_apart mark
  simp [munch?, quote, digit, start, mark]

theorem munch?_sign (sign : isOperatorChar c = true) (cs : List Char) :
    munch? (c :: cs) = some (.operator (String.ofList ((c :: cs).takeWhile isOperatorChar)),
      (c :: cs).takeWhile isOperatorChar) := by
  obtain ⟨quote, digit, start, mark⟩ := operator_apart sign
  simp [munch?, quote, digit, start, mark, sign]

end Munching

section Runs

variable {p : Char → Bool} {u after : List Char} (all : ∀ c ∈ u, p c = true)
  (stops : after.head?.any p = false)

include stops in
theorem takeWhile_stopped : after.takeWhile p = [] ∧ after.dropWhile p = after := by
  cases after with
  | nil => exact ⟨rfl, rfl⟩
  | cons c after =>
      have here : p c = false := stops
      simp [here]

include all stops in
theorem takeWhile_run : (u ++ after).takeWhile p = u ∧ (u ++ after).dropWhile p = after := by
  obtain ⟨none, rest⟩ := takeWhile_stopped stops
  rw [List.takeWhile_append_of_pos all, List.dropWhile_append_of_pos all, none, rest, List.append_nil]
  exact ⟨rfl, rfl⟩

end Runs

theorem Unextended.stops {slice after : List Char} {p : Char → Bool} (unextended : Unextended slice after)
    (extends_ : ∀ c, p c = true → ∃ l, Spelled l (slice ++ [c])) : after.head?.any p = false := by
  cases after with
  | nil => rfl
  | cons c after =>
      cases here : p c with
      | false => exact here
      | true =>
          obtain ⟨l, spelled⟩ := extends_ c here
          exact absurd spelled (unextended c l rfl)

theorem Unextended.last {slice after : List Char} (unextended : Unextended slice after)
    (extends_ : ∀ c, ∃ l, Spelled l (slice ++ [c])) : after = [] := by
  have none : after.head?.any (fun _ => true) = false := unextended.stops fun c _ => extends_ c
  simpa using none

section Numbers

variable {ds fraction : List Char}

theorem numberSlice_whole {after : List Char} (digits : Digits ds)
    (stops : after.head?.any (fun c => c == '.' || Decimal.isDigit c) = false) :
    numberSlice (ds ++ after) = ds := by
  have undigited : after.head?.any Decimal.isDigit = false := by
    cases after with
    | nil => rfl
    | cons c after => exact (Bool.or_eq_false_iff.mp stops).2
  obtain ⟨front, behind⟩ := takeWhile_run digits undigited
  simp only [numberSlice, front, behind]
  split
  · cases stops
  · rfl

theorem numberSlice_decimal (digits : Digits ds) (digits' : Digits fraction) (after : List Char) :
    numberSlice (ds ++ '.' :: (fraction ++ after)) =
      ds ++ '.' :: (fraction ++ after.takeWhile Decimal.isDigit) := by
  have point : ('.' :: (fraction ++ after)).head?.any Decimal.isDigit = false := rfl
  obtain ⟨front, behind⟩ := takeWhile_run digits point
  simp only [numberSlice, front, behind, List.takeWhile_append_of_pos digits']

theorem numberSlice_long (digits : Digits ds) (rest : List Char) :
    ds.length ≤ (numberSlice (ds ++ rest)).length := by
  simp only [numberSlice, List.takeWhile_append_of_pos digits]
  split <;> simp

end Numbers

section Literals

variable {raw text : List Char}

theorem quoted_escaped (escaped : Escaped raw text) (rest : List Char) :
    quotedSlice (raw ++ rest) = raw ++ quotedSlice rest ∧ unescape (raw ++ rest) = text ++ unescape rest := by
  induction escaped with
  | nil => exact ⟨rfl, rfl⟩
  | plain unquoted unescaped _ ih =>
      simp only [List.cons_append, quotedSlice_plain unquoted unescaped, unescape_plain unquoted unescaped,
        ih, and_self]
  | escape _ ih => simp only [List.cons_append, quotedSlice, unescape, ih, and_self]

theorem escaped_split (cs : List Char) :
    ∃ raw text, Escaped raw text ∧ ((∃ rest, cs = raw ++ '"' :: rest) ∨ cs = raw ∨ cs = raw ++ ['\\']) := by
  fun_induction quotedSlice cs with
  | case1 => exact ⟨[], [], .nil, .inr (.inl rfl)⟩
  | case2 => exact ⟨[], [], .nil, .inr (.inr rfl)⟩
  | case3 c cs ih =>
      obtain ⟨raw, text, escaped, ends⟩ := ih
      refine ⟨'\\' :: c :: raw, c :: text, .escape escaped, ?_⟩
      rcases ends with ⟨rest, rfl⟩ | rfl | rfl
      · exact .inl ⟨rest, rfl⟩
      · exact .inr (.inl rfl)
      · exact .inr (.inr rfl)
  | case4 cs _ _ => exact ⟨[], [], .nil, .inl ⟨cs, rfl⟩⟩
  | case5 c cs one two other ih =>
      have unescaped : c ≠ '\\' := by
        rintro rfl
        cases cs with
        | nil => exact one rfl rfl
        | cons d cs => exact two d cs rfl rfl
      obtain ⟨raw, text, escaped, ends⟩ := ih
      refine ⟨c :: raw, c :: text, .plain other unescaped escaped, ?_⟩
      rcases ends with ⟨rest, rfl⟩ | rfl | rfl
      · exact .inl ⟨rest, rfl⟩
      · exact .inr (.inl rfl)
      · exact .inr (.inr rfl)

end Literals

theorem Escaped.append {raw text raw' text' : List Char} (first : Escaped raw text)
    (second : Escaped raw' text') : Escaped (raw ++ raw') (text ++ text') := by
  induction first with
  | nil => exact second
  | plain unquoted unescaped _ ih => exact .plain unquoted unescaped ih
  | escape _ ih => exact .escape ih

section Unclosed

variable {raw text : List Char} (escaped : Escaped raw text) (c : Char)

include escaped

theorem open_extends : ∃ l, Spelled l ('"' :: raw ++ [c]) := by
  by_cases quote : c = '"'
  · subst quote
    exact ⟨_, .closed escaped⟩
  · by_cases backslash : c = '\\'
    · subst backslash
      exact ⟨_, .broken escaped⟩
    · exact ⟨_, .open_ (escaped.append (.plain quote backslash .nil))⟩

theorem broken_extends : ∃ l, Spelled l ('"' :: (raw ++ ['\\']) ++ [c]) := by
  rw [List.cons_append, List.append_assoc]
  exact ⟨_, .open_ (escaped.append (.escape .nil))⟩

end Unclosed

section Names

variable {c : Char} {cs after : List Char}

theorem nameSlice_cut (start : isNameStart c = true) (chars : ∀ d ∈ cs, isNameChar d = true)
    (stops : after.head?.any isNameChar = false)
    (unslashed : c :: cs = "call".toList → ¬ Slashed after) : nameSlice (c :: cs ++ after) = c :: cs := by
  have first : isNameChar c = true := by simp [isNameChar, start]
  obtain ⟨front, behind⟩ := takeWhile_run (List.forall_mem_cons.mpr ⟨first, chars⟩) stops
  simp only [nameSlice, front, behind]
  split
  · rename_i rest word
    split
    · rfl
    · rename_i free
      exact absurd ⟨rest, rfl, by simpa using free⟩ (unslashed word)
  · rfl

theorem nameSlice_long (start : isNameStart c = true) (chars : ∀ d ∈ cs, isNameChar d = true)
    (rest : List Char) : (c :: cs).length ≤ (nameSlice (c :: cs ++ rest)).length := by
  have first : isNameChar c = true := by simp [isNameChar, start]
  simp only [nameSlice, List.takeWhile_append_of_pos (List.forall_mem_cons.mpr ⟨first, chars⟩)]
  split
  · rename_i word _
    have long : (c :: cs).length ≤ 4 := by
      have whole := congrArg List.length word
      simp only [List.length_append, List.length_cons, List.length_nil] at whole ⊢
      omega
    split <;> simp only [List.length_append, List.length_cons, List.length_nil] at long ⊢ <;> omega
  · simp

end Names

theorem Cut.munch? {l : Lexeme} {slice after : List Char} (cut : Cut l slice after) :
    munch? (slice ++ after) = some (l, slice) := by
  obtain ⟨spelled, unextended, unslashed, free⟩ := cut
  cases spelled with
  | mark mark => exact munch?_isMark mark after
  | @operator c cs signs =>
      have stops : after.head?.any isOperatorChar = false := unextended.stops fun d sign =>
        ⟨_, .operator (List.forall_mem_append.mpr ⟨signs, List.forall_mem_singleton.mpr sign⟩)⟩
      have run := (takeWhile_run signs stops).1
      rw [List.cons_append] at run ⊢
      rw [munch?_sign (signs c List.mem_cons_self), run]
  | @whole d ds digits =>
      have stops : after.head?.any (fun c => c == '.' || Decimal.isDigit c) = false := by
        refine unextended.stops fun c more => ?_
        rcases Bool.or_eq_true_iff.mp more with point | digit
        · cases beq_iff_eq.mp point
          exact ⟨_, .decimal digits (by simp [Digits])⟩
        · exact ⟨_, .whole (List.forall_mem_append.mpr ⟨digits, List.forall_mem_singleton.mpr digit⟩)⟩
      have run := numberSlice_whole digits stops
      rw [List.cons_append] at run ⊢
      rw [munch?_digit (digits d List.mem_cons_self), run]
  | @decimal d ds fraction digits digits' =>
      have stops : after.head?.any Decimal.isDigit = false := by
        refine unextended.stops fun c digit => ?_
        rw [List.append_assoc]
        exact ⟨_, .decimal digits (List.forall_mem_append.mpr ⟨digits', List.forall_mem_singleton.mpr digit⟩)⟩
      have run := numberSlice_decimal digits digits' after
      rw [(takeWhile_stopped stops).1, List.append_nil] at run
      simp only [List.cons_append, List.append_assoc] at run ⊢
      rw [munch?_digit (digits d List.mem_cons_self), run]
  | @closed raw text escaped =>
      obtain ⟨slice, value⟩ := quoted_escaped escaped ('"' :: after)
      simp only [List.cons_append, List.append_assoc, List.nil_append, munch?_quote, slice, value]
      simp [quotedSlice, unescape]
  | @open_ raw text escaped =>
      obtain rfl := unextended.last (open_extends escaped)
      obtain ⟨slice, value⟩ := quoted_escaped escaped []
      rw [List.append_nil] at slice value ⊢
      rw [munch?_quote, slice, value]
      simp [quotedSlice, unescape]
  | @broken raw text escaped =>
      obtain rfl := unextended.last (broken_extends escaped)
      obtain ⟨slice, value⟩ := quoted_escaped escaped ['\\']
      rw [List.append_nil, munch?_quote, slice, value]
      simp [quotedSlice, unescape]
  | @word c cs start chars =>
      have stops : after.head?.any isNameChar = false := unextended.stops fun d char =>
        ⟨_, .word start (List.forall_mem_append.mpr ⟨chars, List.forall_mem_singleton.mpr char⟩)⟩
      have run := nameSlice_cut start chars stops unslashed
      rw [List.cons_append] at run ⊢
      rw [munch?_start start, run]
  | slashed =>
      have munched := munch?_start (c := 'c') rfl ("all/cc".toList ++ after)
      have run : nameSlice ('c' :: ("all/cc".toList ++ after)) = "call/cc".toList :=
        Grammar.nameSlice_call after (free rfl)
      rw [run] at munched
      exact munched

-- Whatever follows a text that spells a lexeme, the tokenizer takes at least that text, except that it may leave
-- a part of `call/cc`.
theorem Spelled.munch?_long {l : Lexeme} {u : List Char} (spelled : Spelled l u) (rest : List Char) :
    ∃ l' slice, munch? (u ++ rest) = some (l', slice) ∧ (u.length ≤ slice.length ∨ u = "call/cc".toList) := by
  cases spelled with
  | mark mark => exact ⟨_, _, munch?_isMark mark rest, .inl (Nat.le_refl _)⟩
  | @operator c cs signs =>
      refine ⟨_, _, munch?_sign (signs c List.mem_cons_self) (cs ++ rest), .inl ?_⟩
      rw [← List.cons_append, List.takeWhile_append_of_pos signs]
      simp
  | @whole d ds digits =>
      exact ⟨_, _, munch?_digit (digits d List.mem_cons_self) (ds ++ rest), .inl (numberSlice_long digits rest)⟩
  | @decimal d ds fraction digits digits' =>
      refine ⟨_, _, munch?_digit (digits d List.mem_cons_self) (ds ++ '.' :: fraction ++ rest), .inl ?_⟩
      have run := numberSlice_decimal digits digits' rest
      simp only [List.cons_append, List.append_assoc] at run ⊢
      rw [run]
      simp
  | @closed raw text escaped =>
      refine ⟨_, _, munch?_quote (raw ++ ['"'] ++ rest), .inl ?_⟩
      rw [List.append_assoc, (quoted_escaped escaped _).1]
      simp [quotedSlice]
  | @open_ raw text escaped =>
      refine ⟨_, _, munch?_quote (raw ++ rest), .inl ?_⟩
      rw [(quoted_escaped escaped _).1]
      simp
  | @broken raw text escaped =>
      refine ⟨_, _, munch?_quote (raw ++ ['\\'] ++ rest), .inl ?_⟩
      rw [List.append_assoc, (quoted_escaped escaped _).1]
      cases rest <;> simp [quotedSlice]
  | @word c cs start chars =>
      exact ⟨_, _, munch?_start start (cs ++ rest), .inl (nameSlice_long start chars rest)⟩
  | slashed => exact ⟨_, _, munch?_start (c := 'c') rfl ("all/cc".toList ++ rest), .inr rfl⟩

theorem Munched.spelled {l : Lexeme} {cs slice : List Char} (munched : l.Munched cs slice) :
    Spelled l slice := by
  cases munched with
  | text cs =>
      obtain ⟨raw, text, escaped, ends⟩ := escaped_split cs
      rcases ends with ⟨rest, rfl⟩ | rfl | rfl
      · obtain ⟨slice, value⟩ := quoted_escaped escaped ('"' :: rest)
        have stop : unescape ('"' :: rest) = [] := by simp [unescape]
        have quote : quotedSlice ('"' :: rest) = ['"'] := by simp [quotedSlice]
        rw [slice, value, stop, quote, List.append_nil]
        exact .closed escaped
      · obtain ⟨slice, value⟩ := quoted_escaped escaped []
        simp only [List.append_nil, quotedSlice, unescape] at slice value
        rw [slice, value]
        exact .open_ escaped
      · obtain ⟨slice, value⟩ := quoted_escaped escaped ['\\']
        rw [slice, value]
        simp only [quotedSlice, unescape, List.append_nil]
        exact .broken escaped
  | @number c cs digit =>
      have digits : Digits ((c :: cs).takeWhile Decimal.isDigit) := fun d member =>
        List.all_eq_true.mp List.all_takeWhile d member
      rw [List.takeWhile_cons_of_pos digit] at digits
      simp only [numberSlice, List.takeWhile_cons_of_pos digit]
      split
      · exact .decimal digits fun d member => List.all_eq_true.mp List.all_takeWhile d member
      · exact .whole digits
  | @word c cs start =>
      rcases Grammar.nameSlice_word (c :: cs) with same | same
      · rw [same]
        exact .slashed
      · have first : isNameChar c = true := by simp [isNameChar, start]
        rw [same, List.takeWhile_cons_of_pos first]
        exact .word start fun d member => List.all_eq_true.mp List.all_takeWhile d member
  | mark cs mark => exact .mark mark
  | @operator c cs sign =>
      have signs : ∀ d ∈ (c :: cs).takeWhile isOperatorChar, isOperatorChar d = true :=
        fun d member => List.all_eq_true.mp List.all_takeWhile d member
      rw [List.takeWhile_cons_of_pos sign] at signs ⊢
      exact .operator signs

theorem munch?_call {l : Lexeme} {slice : List Char} (rest : List Char)
    (found : munch? ("call/cc".toList ++ rest) = some (l, slice)) :
    slice = if rest.head?.any isNameChar then "call".toList else "call/cc".toList := by
  have munched := munch?_start (c := 'c') rfl ("all/cc".toList ++ rest)
  cases munched.symm.trans found
  have word : ('c' :: ("all/cc".toList ++ rest)).takeWhile isNameChar = ['c', 'a', 'l', 'l'] := rfl
  have behind : ('c' :: ("all/cc".toList ++ rest)).dropWhile isNameChar = '/' :: 'c' :: 'c' :: rest := rfl
  simp only [nameSlice, word, behind]
  rfl

theorem cut_of_munch? {l : Lexeme} {cs slice : List Char} (found : munch? cs = some (l, slice)) :
    ∃ after, cs = slice ++ after ∧ Cut l slice after := by
  have taken := munched found
  obtain ⟨after, rfl⟩ := taken.isPrefix
  refine ⟨after, rfl, taken.spelled, ?_, ?_, ?_⟩
  · intro c l' next spelled
    obtain ⟨rest, rfl⟩ : ∃ rest, after = c :: rest := by
      cases after with
      | nil => cases next
      | cons d rest => exact ⟨rest, by cases next; rfl⟩
    obtain ⟨l'', slice', found', long⟩ := spelled.munch?_long rest
    rw [List.append_assoc, List.singleton_append, found] at found'
    cases found'
    rcases long with long | call
    · rw [List.length_append, List.length_singleton] at long
      omega
    · -- the characters before the last of `call/cc` are no name
      have same : slice ++ c :: rest = "call/cc".toList ++ rest := by rw [← call]; simp
      have name := munch?_call rest (same ▸ found)
      have short := congrArg List.length call
      rw [name] at short
      split at short <;> simp at short
  · rintro rfl ⟨rest, rfl, free⟩
    have name := munch?_call rest found
    rw [free] at name
    exact absurd name (by decide)
  · rintro rfl
    have name := munch?_call after found
    cases char : after.head?.any isNameChar with
    | false => rfl
    | true =>
        rw [char] at name
        exact absurd name (by decide)

end Lexeme

end Trampoline

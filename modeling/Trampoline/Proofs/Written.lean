import Mathlib.Data.List.Forall2
import Trampoline.Proofs.Splitting

set_option autoImplicit false

namespace Trampoline

structure NumberText where
  chars : List Char
  known : ∀ c ∈ chars, c = '.' ∨ Decimal.isDigit c = true
  first : chars.head?.any Decimal.isDigit = true
  points : chars.count '.' ≤ 1

structure NameText where
  first : Char
  more : List Char
  start : Lexeme.isNameStart first = true
  inside : ∀ c ∈ more, Lexeme.isNameChar c = true

def NameText.chars (t : NameText) : List Char := t.first :: t.more

structure OperatorText where
  first : Char
  more : List Char
  signs : ∀ c ∈ first :: more, Lexeme.isOperatorChar c = true

def OperatorText.chars (t : OperatorText) : List Char := t.first :: t.more

-- What can be written so that it is read back as one lexeme. A name may turn out to be a keyword.
inductive Word where
  | number (t : NumberText)
  | text (value : String)
  | name (t : NameText)
  | slashed
  | operator (t : OperatorText)
  | mark (c : Char) (known : Lexeme.isMark c = true)

namespace Word

def escaped (c : Char) : List Char := if c = '"' ∨ c = '\\' then ['\\', c] else [c]

def written : Word → List Char
  | .number t => t.chars
  | .text value => '"' :: (value.toList.flatMap escaped ++ ['"'])
  | .name t => t.chars
  | .slashed => "call/cc".toList
  | .operator t => t.chars
  | .mark c _ => [c]

theorem written_number (t : NumberText) : (number t).written = t.chars := rfl

theorem written_text (value : String) : (text value).written = '"' :: (value.toList.flatMap escaped ++ ['"']) := rfl

theorem written_name (t : NameText) : (name t).written = t.chars := rfl

theorem written_operator (t : OperatorText) : (operator t).written = t.chars := rfl

inductive Means : Word → Lexeme → Prop where
  | number (t : NumberText) : Means (.number t) (.number (Decimal.ofLiteral t.chars))
  | text (value : String) : Means (.text value) (.text value)
  | keyword {t : NameText} {word : Keyword} : word.text.toList = t.chars → Means (.name t) (.keyword word)
  | name {t : NameText} : (∀ word : Keyword, word.text.toList ≠ t.chars) →
      Means (.name t) (.name (String.ofList t.chars))
  | slashed : Means .slashed (.name "call/cc")
  | operator (t : OperatorText) : Means (.operator t) (.operator (String.ofList t.chars))
  | mark {c : Char} (known : Lexeme.isMark c = true) : Means (.mark c known) (.punctuation c)

end Word

inductive Filler where
  | blank (c : Char) (known : Lexeme.isBlank c = true)
  | comment (body : List Char) (inLine : '\n' ∉ body)

def Filler.written : Filler → List Char
  | .blank c _ => [c]
  | .comment body _ => '#' :: (body ++ ['\n'])

structure Gap where
  first : Filler
  more : List Filler

def Gap.fillers (gap : Gap) : List Filler := gap.first :: gap.more

inductive Row where
  | empty
  | last (w : Word)
  | more (w : Word) (gap : Gap) (rest : Row)

namespace Row

def words : Row → List Word
  | .empty => []
  | .last w => [w]
  | .more w _ rest => w :: rest.words

def written : Row → List Char
  | .empty => []
  | .last w => w.written
  | .more w gap rest => w.written ++ (gap.fillers.flatMap Filler.written ++ rest.written)

def source (lead : List Filler) (row : Row) : List Char := lead.flatMap Filler.written ++ row.written

end Row

def Apart (after : List Char) : Prop := ∀ c, after.head? = some c → Lexeme.isBlank c = true ∨ c = '#'

namespace Apart

theorem gap (gap : Gap) (rest : List Char) : Apart (gap.fillers.flatMap Filler.written ++ rest) := by
  intro c front
  obtain ⟨first, more⟩ := gap
  cases first with
  | blank b known =>
      cases front
      exact .inl known
  | comment body inLine =>
      cases front
      exact .inr rfl

theorem stops {after : List Char} (apart : Apart after) {p : Char → Bool}
    (outside : p ' ' = false ∧ p '\t' = false ∧ p '\n' = false ∧ p '#' = false) :
    after.head?.any p = false := by
  cases after with
  | nil => rfl
  | cons c after =>
      obtain ⟨space, tab, line, sign⟩ := outside
      rcases apart c rfl with blank | rfl
      · rcases Lexeme.isBlank_iff.mp blank with rfl | rfl | rfl
        · exact space
        · exact tab
        · exact line
      · exact sign

end Apart

theorem NumberText.shape (t : NumberText) :
    (∃ d ds, t.chars = d :: ds ∧ Lexeme.Digits (d :: ds)) ∨
      ∃ d ds fraction, t.chars = d :: ds ++ '.' :: fraction ∧ Lexeme.Digits (d :: ds) ∧
        Lexeme.Digits fraction := by
  obtain ⟨chars, known, first, points⟩ := t
  have digit {c : Char} (member : c ∈ chars) (other : c ≠ '.') : Decimal.isDigit c = true :=
    (known c member).resolve_left other
  by_cases point : '.' ∈ chars
  · obtain ⟨front, fraction, rfl, before⟩ := List.eq_append_cons_of_mem point
    have behind : '.' ∉ fraction := by
      have none : fraction.count '.' = 0 := by
        simp only [List.count_append, List.count_cons_self] at points
        omega
      exact List.count_eq_zero.mp none
    cases front with
    | nil => cases first
    | cons d ds =>
        refine .inr ⟨d, ds, fraction, rfl, fun c member => ?_, fun c member => ?_⟩
        · exact digit (List.mem_append_left _ member) fun same => before (same ▸ member)
        · exact digit (List.mem_append_right _ (List.mem_cons_of_mem _ member)) fun same => behind (same ▸ member)
  · cases chars with
    | nil => cases first
    | cons d ds => exact .inl ⟨d, ds, rfl, fun c member => digit member fun same => point (same ▸ member)⟩

theorem Word.escaped_text (cs : List Char) : Lexeme.Escaped (cs.flatMap escaped) cs := by
  induction cs with
  | nil => exact .nil
  | cons c cs ih =>
      rw [List.flatMap_cons, escaped]
      split
      · exact .escape ih
      · rename_i plain
        obtain ⟨unquoted, unescaped⟩ := not_or.mp plain
        exact .plain unquoted unescaped ih

theorem NameText.means (t : NameText) : (Word.name t).Means (Lexeme.ofName (String.ofList t.chars)) := by
  rcases Grammar.ofName_cases (String.ofList t.chars) with ⟨word, keyword, text⟩ | ⟨name, free⟩
  · rw [keyword]
    exact .keyword (by rw [← text, String.toList_ofList])
  · rw [name]
    refine .name fun word same => ?_
    have found : Keyword.ofText? word.text ≠ none := by cases word <;> decide
    rw [← same, String.ofList_toList] at free
    exact found free

theorem Word.munched (w : Word) {after : List Char} (apart : Apart after) :
    ∃ l, w.Means l ∧ Lexeme.munch? (w.written ++ after) = some (l, w.written) := by
  cases w with
  | number t =>
      refine ⟨_, .number t, ?_⟩
      rcases t.shape with ⟨d, ds, chars, digits⟩ | ⟨d, ds, fraction, chars, digits, digits'⟩
      · have run := Lexeme.numberSlice_whole digits (apart.stops (by decide))
        rw [written_number, chars]
        rw [List.cons_append] at run ⊢
        rw [Lexeme.munch?_digit (digits d List.mem_cons_self), run]
      · have run := Lexeme.numberSlice_decimal digits digits' after
        rw [(Lexeme.takeWhile_stopped (apart.stops (by decide))).1, List.append_nil] at run
        rw [written_number, chars]
        simp only [List.cons_append, List.append_assoc] at run ⊢
        rw [Lexeme.munch?_digit (digits d List.mem_cons_self), run]
  | text value =>
      obtain ⟨slice, inside⟩ := Lexeme.quoted_escaped (escaped_text value.toList) ('"' :: after)
      refine ⟨_, .text value, ?_⟩
      simp only [written_text, List.cons_append, List.append_assoc, List.nil_append, Lexeme.munch?_quote, slice, inside]
      simp [Lexeme.quotedSlice, Lexeme.unescape]
  | name t =>
      refine ⟨_, t.means, ?_⟩
      have unslashed : ¬ Lexeme.Slashed after := by
        rintro ⟨rest, rfl, _⟩
        exact absurd (apart '/' rfl) (by decide)
      have run := Lexeme.nameSlice_cut t.start t.inside (apart.stops (by decide)) fun _ => unslashed
      rw [written_name, NameText.chars]
      rw [List.cons_append] at run ⊢
      rw [Lexeme.munch?_start t.start, run]
  | slashed =>
      refine ⟨_, .slashed, ?_⟩
      have munched := Lexeme.munch?_start (c := 'c') rfl ("all/cc".toList ++ after)
      have run : Lexeme.nameSlice ('c' :: ("all/cc".toList ++ after)) = "call/cc".toList :=
        Grammar.nameSlice_call after (apart.stops (by decide))
      rw [run] at munched
      exact munched
  | operator t =>
      refine ⟨_, .operator t, ?_⟩
      have run := (Lexeme.takeWhile_run t.signs (apart.stops (by decide))).1
      rw [written_operator, OperatorText.chars]
      rw [List.cons_append] at run ⊢
      rw [Lexeme.munch?_sign (t.signs _ List.mem_cons_self), run]
  | mark c known => exact ⟨_, .mark known, Lexeme.munch?_isMark known after⟩

theorem Token.slice_cut {cs : List Char} {n : Nat} {u rest : List Char} (l : Lexeme) (fits : n ≤ cs.length)
    (here : cs.drop n = u ++ rest) :
    Token.slice cs ⟨l, .behind (cs.take n), .behind (cs.take (n + u.length))⟩ = u := by
  have start : (cs.take n).length = n := List.length_take_of_le fits
  have stop : (cs.take (n + u.length)).length = n + u.length := List.length_take_of_le (fits_past here fits)
  simp only [slice, Position.behind, start, stop]
  rw [Nat.add_sub_cancel_left, here, List.take_left]

def Token.IsWord (cs : List Char) (w : Word) (t : Token) : Prop := w.Means t.lexeme ∧ t.slice cs = w.written

namespace Split

variable {cs : List Char} {ts : List Token} {n : Nat}

theorem fillers (split : Split cs ts n) (fs : List Filler) {rest : List Char}
    (here : cs.drop n = fs.flatMap Filler.written ++ rest) :
    Split cs ts (n + (fs.flatMap Filler.written).length) := by
  induction fs generalizing n with
  | nil => exact split
  | cons f fs ih =>
      rw [List.flatMap_cons, List.append_assoc] at here
      have behind := drop_past here
      rw [List.flatMap_cons, List.length_append, ← Nat.add_assoc]
      cases f with
      | blank c known => exact ih (split.blank here known) behind
      | comment body inLine =>
          have front : cs.drop n = '#' :: (body ++ '\n' :: (fs.flatMap Filler.written ++ rest)) := by
            simp [here, Filler.written]
          have skipped := split.comment front inLine
          have long : (Filler.comment body inLine).written.length = body.length + 2 := by simp [Filler.written]
          rw [long] at behind ⊢
          exact ih skipped behind

theorem word (split : Split cs ts n) (w : Word) {after : List Char} (here : cs.drop n = w.written ++ after)
    (apart : Apart after) : ∃ t, t.IsWord cs w ∧ Split cs (ts ++ [t]) (n + w.written.length) := by
  obtain ⟨l, means, found⟩ := w.munched apart
  exact ⟨_, ⟨means, Token.slice_cut l split.fits here⟩, split.munch here found⟩

theorem row (split : Split cs ts n) (row : Row) (here : cs.drop n = row.written) :
    ∃ new, List.Forall₂ (Token.IsWord cs) row.words new ∧ Split cs (ts ++ new) (n + row.written.length) := by
  induction row generalizing ts n with
  | empty => exact ⟨[], .nil, by simpa [Row.written] using split⟩
  | last w =>
      have here : cs.drop n = w.written ++ [] := by rw [here, Row.written, List.append_nil]
      obtain ⟨t, reads, next⟩ := split.word w here (by simp [Apart])
      exact ⟨[t], .cons reads .nil, next⟩
  | more w gap rest ih =>
      obtain ⟨t, reads, next⟩ := split.word w here (.gap gap rest.written)
      have behind := drop_past here
      obtain ⟨new, others, last⟩ := ih (next.fillers gap.fillers behind) (drop_past behind)
      refine ⟨t :: new, .cons reads others, ?_⟩
      simpa [Row.written, Nat.add_assoc] using last

end Split

-- The words of a row come back in order, each as the lexeme that it is for and with its own characters.
theorem row_is_read_back (lead : List Filler) (row : Row) :
    ∃ ts, tokenize (String.ofList (row.source lead)) = .ok ts ∧
      List.Forall₂ (Token.IsWord (row.source lead)) row.words ts := by
  generalize made : row.source lead = cs
  have front : cs.drop 0 = lead.flatMap Filler.written ++ row.written := made.symm
  have begun := (Split.start : Split cs [] 0).fillers lead front
  obtain ⟨ts, reads, split⟩ := begun.row row (drop_past front)
  have whole : 0 + (lead.flatMap Filler.written).length + row.written.length = cs.length := by
    rw [← made, Row.source, List.length_append, Nat.zero_add]
  have empty : (Cursor.into cs cs.length).skipBlanks.rest = [] := by
    simp only [Cursor.skipBlanks, Cursor.into, List.drop_length, Position.skipBlanks]
  have done := (whole ▸ split).complete
  rw [Tokens.complete_ended empty] at done
  refine ⟨ts, ?_, reads⟩
  rw [tokenize, Tokens.ofSource, Cursor.ofSource, String.toList_ofList]
  exact done.trans (congrArg Except.ok (List.append_nil ts))

end Trampoline

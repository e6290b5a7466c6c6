import Trampoline.Proofs.Phrases

set_option autoImplicit false

namespace Trampoline

theorem Position.skipBlanks_anywhere (comment : Bool) (cs : List Char) (p q : Position) :
    (skipBlanks comment cs p).1 = (skipBlanks comment cs q).1 := by
  induction cs generalizing comment p q with
  | nil => cases comment <;> rfl
  | cons c cs ih =>
      cases comment with
      | true => exact ih _ _ _
      | false =>
          simp only [skipBlanks]
          split
          · exact ih _ _ _
          · split
            · exact ih _ _ _
            · rfl

def blanksSkipped (comment : Bool) (cs : List Char) : List Char := (Position.skipBlanks comment cs {}).1

theorem Cursor.skipBlanks_rest (c : Cursor) : c.skipBlanks.rest = blanksSkipped false c.rest :=
  Position.skipBlanks_anywhere false c.rest c.pos {}

theorem blanksSkipped_cons (comment : Bool) (c : Char) (cs : List Char) :
    blanksSkipped comment (c :: cs) =
      if comment then blanksSkipped (c != '\n') cs
      else if Lexeme.isBlank c then blanksSkipped false cs
      else if c = '#' then blanksSkipped true cs
      else c :: cs := by
  cases comment with
  | true => exact Position.skipBlanks_anywhere _ cs _ _
  | false =>
      simp only [blanksSkipped, Position.skipBlanks, Bool.false_eq_true, if_false]
      split
      · exact Position.skipBlanks_anywhere _ cs _ _
      · split
        · exact Position.skipBlanks_anywhere _ cs _ _
        · rfl

theorem blanksSkipped_append (comment : Bool) (cs more : List Char) (left : blanksSkipped comment cs ≠ []) :
    blanksSkipped comment (cs ++ more) = blanksSkipped comment cs ++ more := by
  induction cs generalizing comment with
  | nil => cases comment <;> exact absurd rfl left
  | cons c cs ih =>
      rw [blanksSkipped_cons] at left
      rw [List.cons_append, blanksSkipped_cons, blanksSkipped_cons]
      split
      · rename_i inside
        rw [if_pos inside] at left
        exact ih _ left
      · rename_i outside
        rw [if_neg outside] at left
        split
        · rename_i blank
          rw [if_pos blank] at left
          exact ih _ left
        · rename_i visible
          rw [if_neg visible] at left
          split
          · rename_i sign
            rw [if_pos sign] at left
            exact ih _ left
          · rfl

theorem blanksSkipped_line (comment : Bool) (cs more : List Char) (none : blanksSkipped comment cs = []) :
    blanksSkipped comment (cs ++ '\n' :: more) = blanksSkipped false more := by
  induction cs generalizing comment with
  | nil => cases comment <;> simp [blanksSkipped_cons, Lexeme.isBlank]
  | cons c cs ih =>
      rw [blanksSkipped_cons] at none
      rw [List.cons_append, blanksSkipped_cons]
      split
      · rename_i inside
        rw [if_pos inside] at none
        exact ih _ none
      · rename_i outside
        rw [if_neg outside] at none
        split
        · rename_i blank
          rw [if_pos blank] at none
          exact ih _ none
        · rename_i visible
          rw [if_neg visible] at none
          split
          · rename_i sign
            rw [if_pos sign] at none
            exact ih _ none
          · rename_i other
            rw [if_neg other] at none
            cases none

namespace Lexeme

section Lines

variable {p : Char → Bool} (stops : p '\n' = false) (cs more : List Char)

include stops

theorem takeWhile_line : (cs ++ '\n' :: more).takeWhile p = cs.takeWhile p := by
  induction cs with
  | nil => simp [stops]
  | cons c cs ih => cases taken : p c <;> simp [taken, ih]

theorem dropWhile_line : (cs ++ '\n' :: more).dropWhile p = cs.dropWhile p ++ '\n' :: more := by
  induction cs with
  | nil => simp [stops]
  | cons c cs ih => cases taken : p c <;> simp [taken, ih]

end Lines

theorem numberSlice_line (cs more : List Char) : numberSlice (cs ++ '\n' :: more) = numberSlice cs := by
  have stops : Decimal.isDigit '\n' = false := by decide
  simp only [numberSlice, takeWhile_line stops, dropWhile_line stops]
  cases cs.dropWhile Decimal.isDigit with
  | nil => rfl
  | cons d ds =>
      by_cases point : d = '.'
      · subst point
        simp only [List.cons_append, takeWhile_line stops]
      · simp [point]

theorem nameSlice_line (cs more : List Char) : nameSlice (cs ++ '\n' :: more) = nameSlice cs := by
  have stops : isNameChar '\n' = false := by decide
  simp only [nameSlice, takeWhile_line stops, dropWhile_line stops]
  generalize cs.takeWhile isNameChar = word
  generalize cs.dropWhile isNameChar = behind
  by_cases call : ∃ after, behind = '/' :: 'c' :: 'c' :: after
  · obtain ⟨after, rfl⟩ := call
    have same : (after ++ '\n' :: more).head?.any isNameChar = after.head?.any isNameChar := by
      cases after with
      | nil => simp [stops]
      | cons c after => rfl
    by_cases whole : word = ['c', 'a', 'l', 'l']
    · subst whole
      simp only [List.cons_append, same]
    · split
      · exact absurd rfl whole
      · split
        · exact absurd rfl whole
        · rfl
  · have apart : ∀ after, behind ++ '\n' :: more ≠ '/' :: 'c' :: 'c' :: after := by
      intro after same
      cases behind with
      | nil => simp at same
      | cons a behind =>
          cases behind with
          | nil => simp at same
          | cons b behind =>
              cases behind with
              | nil => simp at same
              | cons c rest =>
                  simp only [List.cons_append, List.cons.injEq] at same
                  obtain ⟨rfl, rfl, rfl, _⟩ := same
                  exact call ⟨rest, rfl⟩
    split
    · rename_i after same
      exact absurd same (apart after)
    · split
      · exact absurd ⟨_, rfl⟩ call
      · rfl

theorem quotedSlice_closed {cs : List Char} (closed : (Grammar.closedSlice? cs).isSome = true)
    (more : List Char) :
    quotedSlice (cs ++ more) = quotedSlice cs ∧ unescape (cs ++ more) = unescape cs := by
  fun_induction Grammar.closedSlice? cs with
  | case1 => cases closed
  | case2 => cases closed
  | case3 c cs ih =>
      obtain ⟨slice, text⟩ := ih (by simpa using closed)
      simp only [List.cons_append, quotedSlice, unescape, slice, text, and_self]
  | case4 cs _ _ => simp [quotedSlice, unescape]
  | case5 c cs one two other ih =>
      obtain ⟨slice, text⟩ := ih (by simpa using closed)
      have unescaped : c ≠ '\\' := by
        rintro rfl
        cases cs with
        | nil => exact one rfl rfl
        | cons d cs => exact two d cs rfl rfl
      simp only [List.cons_append, quotedSlice_plain other unescaped, unescape_plain other unescaped, slice,
        text, and_self]

def ClosedAt : Lexeme → List Char → Prop
  | .text _, cs => (Grammar.closedSlice? cs.tail).isSome = true
  | _, _ => True

instance (l : Lexeme) (cs : List Char) : Decidable (l.ClosedAt cs) :=
  match l with
  | .text _ => inferInstanceAs (Decidable (_ = true))
  | .name _ | .keyword _ | .number _ | .operator _ | .punctuation _ => .isTrue trivial

theorem munch?_line {cs slice : List Char} {l : Lexeme} (found : munch? cs = some (l, slice))
    (closed : l.ClosedAt cs) (more : List Char) : munch? (cs ++ '\n' :: more) = some (l, slice) := by
  cases cs with
  | nil => cases found
  | cons c cs =>
      have number := numberSlice_line (c :: cs) more
      have name := nameSlice_line (c :: cs) more
      have sign : isOperatorChar '\n' = false := by decide
      have operator := takeWhile_line sign (c :: cs) more
      rw [List.cons_append] at number name operator
      rw [← found, List.cons_append, munch?, munch?]
      split
      · rename_i quote
        simp only [munch?, if_pos quote] at found
        cases found
        have closed' : (Grammar.closedSlice? cs).isSome = true := closed
        obtain ⟨slice, text⟩ := quotedSlice_closed closed' ('\n' :: more)
        rw [slice, text]
      · rw [number, name, operator]

end Lexeme

-- The lexemes of a text that splits into lexemes altogether, wherever it stands; each of them is allowed at
-- the front of what is left there.
inductive Lexes (allowed : Lexeme → List Char → Prop) : List Char → List Lexeme → Prop where
  | ended {cs : List Char} : blanksSkipped false cs = [] → Lexes allowed cs []
  | lexeme {cs slice : List Char} {l : Lexeme} {ls : List Lexeme} :
      Lexeme.munch? (blanksSkipped false cs) = some (l, slice) → allowed l (blanksSkipped false cs) →
        Lexes allowed ((blanksSkipped false cs).drop slice.length) ls → Lexes allowed cs (l :: ls)

namespace Lexes

variable {cs ds : List Char} {ls ms : List Lexeme}

theorem append (first : Lexes Lexeme.ClosedAt cs ls) (second : Lexes (fun _ _ => True) ds ms) :
    Lexes (fun _ _ => True) (cs ++ '\n' :: ds) (ls ++ ms) := by
  induction first with
  | @ended cs none =>
      have same := blanksSkipped_line false cs ds none
      rw [List.nil_append]
      cases second with
      | ended none' => exact .ended (same.trans none')
      | lexeme found here rest =>
          rw [← same] at found rest
          exact .lexeme found trivial rest
  | @lexeme cs slice l ls found here _ ih =>
      have left : blanksSkipped false cs ≠ [] := by
        intro none
        rw [none] at found
        cases found
      have front := (Lexeme.munched found).isPrefix
      have same := blanksSkipped_append false cs ('\n' :: ds) left
      have found' := Lexeme.munch?_line found here ds
      rw [← same] at found'
      refine .lexeme found' trivial ?_
      rw [same, List.drop_append_of_le_length front.length_le]
      exact ih

end Lexes

namespace Tokens

def Ended (ts : Tokens) : Prop := ∃ p, ts.ending = .ended p

theorem lexes_ofCursor {source : String} {allowed : Lexeme → List Char → Prop} (c : Cursor)
    (inside : c.In source) (ended : (ofCursor c).Ended)
    (here : ∀ t ∈ (ofCursor c).list, allowed t.lexeme (source.toList.drop t.start.offset)) :
    Lexes allowed c.rest (ofCursor c).lexemes := by
  fun_induction ofCursor c with
  | case1 c t after found more ih =>
      obtain ⟨slice, munched, start, rfl, _⟩ := Cursor.scan_token found
      have blanks := Cursor.in_skipBlanks inside
      have rest := ih (Cursor.in_skip blanks slice) ended fun t member => here t (List.mem_cons_of_mem _ member)
      have first := here t List.mem_cons_self
      rw [start, ← blanks, Cursor.skipBlanks_rest] at first
      rw [Cursor.skipBlanks_rest] at munched
      refine .lexeme munched first ?_
      rw [← Cursor.skipBlanks_rest]
      exact rest
  | case2 c after found =>
      have none : c.skipBlanks.rest = [] := by
        simp only [Cursor.scan] at found
        split at found
        · assumption
        · split at found <;> cases found
      exact .ended (c.skipBlanks_rest ▸ none)
  | case3 c x ahead found =>
      obtain ⟨p, stray⟩ := ended
      cases stray

theorem ofCursor_lexes {allowed : Lexeme → List Char → Prop} {cs : List Char} {ls : List Lexeme}
    (lexes : Lexes allowed cs ls) (c : Cursor) (here : c.rest = cs) :
    (ofCursor c).lexemes = ls ∧ (ofCursor c).Ended := by
  induction lexes generalizing c with
  | ended none =>
      subst here
      have ended : c.scan = .ended c.skipBlanks := by
        rw [← Cursor.skipBlanks_rest] at none
        simp [Cursor.scan, none]
      rw [ofCursor_eq, ended]
      exact ⟨rfl, _, rfl⟩
  | @lexeme cs slice l ls found _ _ ih =>
      subst here
      rw [← Cursor.skipBlanks_rest] at found ih
      obtain ⟨same, ended⟩ := ih (c.skipBlanks.skip slice) rfl
      have scanned : c.scan = .token ⟨l, c.skipBlanks.pos, (c.skipBlanks.skip slice).pos⟩
          (c.skipBlanks.skip slice) := by
        simp only [Cursor.scan]
        split
        · rename_i none
          rw [none] at found
          cases found
        · rename_i front
          rw [← front, found]
      rw [ofCursor_eq, scanned]
      exact ⟨congrArg (l :: ·) same, ended⟩

end Tokens

def TextsClosed (source : String) : Prop :=
  ∀ t ∈ (Tokens.ofSource source).list, t.lexeme.ClosedAt (source.toList.drop t.start.offset)

instance (source : String) : Decidable (TextsClosed source) := List.decidableBAll _ _

theorem lexemes_joined {first second : String} (ended : (Tokens.ofSource first).Ended)
    (closed : TextsClosed first) (ended' : (Tokens.ofSource second).Ended) :
    (Tokens.ofSource (first ++ "\n;\n" ++ second)).Ended ∧
      (Tokens.ofSource (first ++ "\n;\n" ++ second)).lexemes =
        (Tokens.ofSource first).lexemes ++ .punctuation ';' :: (Tokens.ofSource second).lexemes := by
  have front := Tokens.lexes_ofCursor (.ofSource first) (Cursor.in_ofSource first) ended closed
  have back : Lexes (fun _ _ => True) second.toList (Tokens.ofSource second).lexemes :=
    Tokens.lexes_ofCursor _ (Cursor.in_ofSource second) ended' fun _ _ => trivial
  have found : Lexeme.munch? [';'] = some (.punctuation ';', [';']) := rfl
  have mark : Lexes Lexeme.ClosedAt [';'] [.punctuation ';'] := .lexeme found trivial (.ended rfl)
  have joined := front.append (mark.append back)
  have text : (first ++ "\n;\n" ++ second).toList =
      first.toList ++ '\n' :: ([';'] ++ '\n' :: second.toList) := by
    simp [String.toList_append]
  obtain ⟨same, last⟩ := Tokens.ofCursor_lexes joined (.ofSource (first ++ "\n;\n" ++ second)) text
  exact ⟨last, same⟩

end Trampoline

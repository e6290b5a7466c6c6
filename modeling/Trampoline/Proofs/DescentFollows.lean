import Mathlib.Data.List.Forall2
import Trampoline.Proofs.Lockstep

set_option autoImplicit false

namespace Trampoline

namespace Grammar

-- A token and a terminal take the same characters of the source, and both are names or neither is.
structure Coincide (t : Token) (found : Located) : Prop where
  start : t.start.offset = found.start.offset
  stop : t.stop.offset = found.start.offset + found.text.length
  names : found.terminal = .name ↔ ∃ x, t.lexeme = .name x

instance (t : Token) : Decidable (∃ x, t.lexeme = .name x) :=
  match t.lexeme with
  | .name x => isTrue ⟨x, rfl⟩
  | .punctuation _ | .number _ | .text _ | .keyword _ | .operator _ => isFalse nofun

instance (t : Token) (found : Located) : Decidable (Coincide t found) :=
  decidable_of_iff
    (t.start.offset = found.start.offset ∧ t.stop.offset = found.start.offset + found.text.length ∧
      (found.terminal = .name ↔ ∃ x, t.lexeme = .name x))
    ⟨fun ⟨start, stop, names⟩ => ⟨start, stop, names⟩, fun ⟨start, stop, names⟩ => ⟨start, stop, names⟩⟩

theorem look_coincides {source : String} {context : Context} {cursor cursor' : Cursor} {last : Position}
    {ahead : Lookahead} (inside : cursor.In source) (looked : look context cursor last = .ok (ahead, cursor'))
    (same : ∀ found, ahead = .terminal found →
      ∃ t rest, (Tokens.ofCursor cursor).list = t :: rest ∧ Coincide t found) :
    Agrees (.ofCursor cursor) ahead ∧ cursor'.In source ∧
      ∀ t rest, (Tokens.ofCursor cursor).list = t :: rest →
        Tokens.ofCursor cursor' = (Tokens.ofCursor cursor).tail := by
  have blanks := Cursor.in_skipBlanks inside
  rcases look_ok.mp looked with ⟨nothing, rfl, rfl⟩ | ⟨terminal, text, found, rfl, rfl⟩
  · have ended : Tokens.ofCursor cursor = ⟨[], .ended cursor.skipBlanks.pos⟩ := by
      rw [Tokens.ofCursor_eq, Cursor.scan]
      simp only [nothing]
    rw [ended]
    exact ⟨.ended rfl, blanks, by rintro _ _ ⟨⟩⟩
  · obtain ⟨t, rest, tokens, span⟩ := same _ rfl
    obtain ⟨after, scanned, others⟩ := Tokens.ofCursor_cons tokens
    obtain ⟨slice, munched, start, rfl, stop⟩ := Cursor.scan_token scanned
    have recognised := recognised found
    have long : slice.length = text.length := by
      have size := span.stop
      rw [stop] at size
      simp only [Cursor.skip, Position.offset_after] at size
      omega
    -- Both are at the front of the same text, so with the same length they are the same characters.
    have slices : slice = text := by
      have taken := (Lexeme.munched munched).isPrefix
      exact (List.prefix_of_prefix_length_le taken recognised.isPrefix (Nat.le_of_eq long)).eq_of_length long
    subst slices
    obtain ⟨known, bears⟩ := bears_of_recognised recognised munched span.names
    have ahead : (Tokens.ofCursor cursor).Ahead t.lexeme := Tokens.ahead_iff.mpr ⟨t, rest, tokens, rfl⟩
    refine ⟨.terminal ahead known bears, Cursor.in_skip blanks slice, ?_⟩
    intro _ _ _
    rw [others]
    simp [Tokens.tail, tokens]

-- Both front ends stand at the same place, and the terminals still to come coincide with the tokens still to
-- come; the list of all terminals has the newest first. It is known only once the whole source is read, so
-- every step is given that the terminals it passes are among them.
structure Abreast (source : String) (all : List Located) (r : Reading) (ts : Tokens) (s : State) : Prop
    extends Together source r ts s where
  coming : ∃ rest, all = rest.reverse ++ s.taken ∧ List.Forall₂ Coincide ts.list rest

theorem coming_head {all taken rest : List Located} {found : Located} (split : all = rest.reverse ++ taken)
    (passed : found :: taken <:+ all) : ∃ rest', rest = found :: rest' := by
  cases rest with
  | nil =>
      have short := passed.length_le
      rw [split] at short
      exact absurd short (Nat.not_succ_le_self _)
  | cons other rest =>
      have here : other :: taken <:+ all := ⟨rest.reverse, by simp [split]⟩
      have same := List.suffix_of_suffix_length_le passed here (by simp)
      cases same.eq_of_length (by simp)
      exact ⟨rest, rfl⟩

namespace Abreast

variable {source : String} {all : List Located} {r : Reading} {ts : Tokens} {s s' : State} {l : Lexeme}
  {context : Context} {terminal : Terminal}

theorem shift (abreast : Abreast source all r ts s) (ahead : ts.Ahead l) (shifted : s.shift context = .ok s')
    (within : s'.passed <:+ all) : Abreast source all (r.next l) ts.tail s' := by
  obtain ⟨ahead', cursor', looked, rfl⟩ := State.shift_ok.mp shifted
  obtain ⟨found, here, _, _⟩ := abreast.agrees.found ahead
  have passed : s.passed = found :: s.taken := by rw [State.passed, here]
  obtain ⟨t, rest, tokens, lexeme⟩ := Tokens.ahead_iff.mp ahead
  have cursor := abreast.cursor t rest tokens
  have tail : ts.tail.list = rest := by simp [Tokens.tail, tokens]
  obtain ⟨terminals, split, coincide⟩ := abreast.coming
  -- The terminal taken is the first of those to come; so is the one now ahead, in what is then left.
  obtain ⟨coming, rfl⟩ := coming_head split (passed ▸ (State.shift_keepsPassed shifted).trans within)
  rw [tokens] at coincide
  cases coincide with
  | cons _ others =>
      have split' : all = coming.reverse ++ s.passed := by simp [split, passed]
      have same : ∀ found', ahead' = .terminal found' →
          ∃ t rest, (Tokens.ofCursor s.cursor).list = t :: rest ∧ Coincide t found' := by
        rintro found' rfl
        obtain ⟨coming', rfl⟩ := coming_head split' within
        rw [cursor, tail]
        cases others with
        | cons first more => exact ⟨_, _, rfl, first⟩
      obtain ⟨agrees, inside, behind⟩ := look_coincides abreast.inside looked same
      rw [cursor] at agrees behind
      exact ⟨⟨agrees, behind, inside, abreast.clean_tail ahead⟩, coming, split', tail ▸ others⟩

theorem take (abreast : Abreast source all r ts s) (taken : s.take terminal context = .ok s')
    (within : s'.passed <:+ all) :
    ∃ l, ts.Ahead l ∧ l.terminal? = some terminal ∧ Abreast source all (r.next l) ts.tail s' := by
  obtain ⟨here, shifted⟩ := State.take_ok.mp taken
  obtain ⟨l, ahead, known⟩ := abreast.agrees.lexeme here
  exact ⟨l, ahead, known, abreast.shift ahead shifted within⟩

theorem take_mark (abreast : Abreast source all r ts s) (mark : Char)
    (known : Lexeme.ofMark? mark = some terminal) (taken : s.take terminal context = .ok s')
    (within : s'.passed <:+ all) :
    ts.Ahead (.punctuation mark) ∧ Abreast source all (r.next (.punctuation mark)) ts.tail s' := by
  obtain ⟨l, ahead, same, abreast'⟩ := abreast.take taken within
  cases (Lexeme.terminal?_mark known).mp same
  exact ⟨ahead, abreast'⟩

theorem take_keyword (abreast : Abreast source all r ts s) (word : Keyword)
    (taken : s.take word.terminal context = .ok s') (within : s'.passed <:+ all) :
    ts.Ahead (.keyword word) ∧ Abreast source all (r.next (.keyword word)) ts.tail s' := by
  obtain ⟨l, ahead, same, abreast'⟩ := abreast.take taken within
  cases Lexeme.terminal?_keyword.mp same
  exact ⟨ahead, abreast'⟩

theorem take_name (abreast : Abreast source all r ts s) (taken : s.take .name context = .ok s')
    (within : s'.passed <:+ all) :
    ts.Ahead (.name (word s)) ∧ Abreast source all (r.next (.name (word s))) ts.tail s' := by
  obtain ⟨l, ahead, same, abreast'⟩ := abreast.take taken within
  obtain ⟨x, rfl⟩ := (Lexeme.valued_of_terminal same).1 rfl
  have spelling : x = word s := abreast.agrees.text ahead
  subst spelling
  exact ⟨ahead, abreast'⟩

end Abreast

section Answering

variable {α : Type} {source : String} {all : List Located} {opened : List Bracket} {ts : Tokens} {s s' : State}

-- The other front end reads the same thing and then stands at the same place again. Its bound is at least
-- four times the number of tokens that are taken, up to a slack.
def Answered (source : String) (all : List Located) (opened : List Bracket) (f : Nat → Descent.Reader α)
    (slack : Nat) (ts : Tokens) (a : α) (s' : State) : Prop :=
  ∃ ts', Abreast source all (.beyond opened) ts' s' ∧ ts'.list.length < ts.list.length ∧
    ∀ bound, 4 * ts.list.length ≤ bound + slack + 4 * ts'.list.length → f bound ts = .ok (a, ts')

structure Answers (source : String) (all : List Located) (f : Nat → Descent.Reader α) (slack : Nat)
    (g : Reader α) : Prop where
  passes : KeepsPassed g
  answers : ∀ {opened : List Bracket} {ts : Tokens} {s s' : State} {a : α},
    Abreast source all (.before opened) ts s → g s = .ok (a, s') → s'.passed <:+ all →
      Answered source all opened f slack ts a s'

theorem ahead_of_shorter {ts' : Tokens} (shorter : ts'.list.length < ts.list.length) : ∃ l, ts.Ahead l := by
  cases tokens : ts.list with
  | nil => simp [tokens] at shorter
  | cons t rest => exact ⟨t.lexeme, Tokens.ahead_iff.mpr ⟨t, rest, tokens, rfl⟩⟩

section Lists

variable {stop separator : Char} {stop' separator' : Terminal} {next after : Context}
  {f : Nat → Descent.Reader α} {g : Reader α} {xs : List α}

theorem listed_answers (marks : Delimiters stop separator stop' separator' next after)
    (item : Answers source all f 0 g) (listed : Listed stop' separator' next g s xs s')
    (abreast : Abreast source all (.before opened) ts s) (within : s'.passed <:+ all) :
    ∃ ts' r, Abreast source all r ts' s' ∧ r.opened = opened ∧
      xs.length + ts'.list.length ≤ ts.list.length ∧
      ∀ bound, 4 * ts.list.length ≤ bound + 4 * ts'.list.length →
        Descent.Listed stop separator (f bound) ts xs ts' := by
  induction listed generalizing ts with
  | none ended =>
      have here := (abreast.agrees.mark marks.stopped).mp ended
      exact ⟨ts, _, abreast, rfl, by simp, fun _ _ => .none here⟩
  | last open' read closed =>
      obtain ⟨ts', abreast', shorter, reads⟩ := item.answers abreast read within
      obtain ⟨l, ahead⟩ := ahead_of_shorter shorter
      have other : l ≠ .punctuation stop := by
        rintro rfl
        exact open' ((abreast.agrees.mark marks.stopped).mpr ahead)
      have here := (abreast'.agrees.mark marks.stopped).mp closed
      refine ⟨ts', _, abreast', rfl, ?_, fun bound enough => .last ahead other (reads bound enough) here⟩
      simp only [List.length_singleton]
      omega
  | more open' read separated shifted rest ih =>
      have later := rest.passes item.passes
      obtain ⟨mid, abreast', shorter, reads⟩ :=
        item.answers abreast read (((State.shift_keepsPassed shifted).trans later).trans within)
      obtain ⟨l, ahead⟩ := ahead_of_shorter shorter
      have other : l ≠ .punctuation stop := by
        rintro rfl
        exact open' ((abreast.agrees.mark marks.stopped).mpr ahead)
      have here := (abreast'.agrees.mark marks.separated).mp separated
      have again := abreast'.shift here shifted (later.trans within)
      rw [marks.again] at again
      obtain ⟨ts', r, abreast'', same, fewer, listed⟩ := ih again within
      have tail := Tokens.length_tail here
      refine ⟨ts', r, abreast'', same, ?_, ?_⟩
      · simp only [List.length_cons]
        omega
      · intro bound enough
        exact .more ahead other (reads bound (by omega)) here (listed bound (by omega))

theorem delimited_answers (marks : Delimiters stop separator stop' separator' next after)
    (item : Answers source all f 0 g) {start : Char} {start' : Terminal} {last : Context}
    {r : Reading} {bracket : Bracket} {bound : Nat} {open' inner' : State}
    (started : Lexeme.ofMark? start = some start')
    (opens : r.next (.punctuation start) = .before (bracket :: r.opened))
    (abreast : Abreast source all r ts s) (taken : s.take start' next = .ok open')
    (read : itemsFrom stop' separator' next g bound open' = .ok (xs, inner'))
    (closed : inner'.take stop' last = .ok s') (within : s'.passed <:+ all) :
    ∃ inner r', ts.Ahead (.punctuation start) ∧ Abreast source all r' inner inner' ∧
      r'.opened = bracket :: r.opened ∧ inner.Ahead (.punctuation stop) ∧
      Abreast source all ⟨bracket != .binders, false, r.opened⟩ inner.tail s' ∧
      xs.length + 2 + inner.tail.list.length ≤ ts.list.length ∧
      ∀ bound, 4 * ts.list.length ≤ bound + 8 + 4 * inner.tail.list.length →
        Descent.Listed stop separator (f bound) ts.tail xs inner := by
  have listed := listed_of_itemsFrom read
  have within' := (State.take_keepsPassed closed).trans within
  obtain ⟨here, begins⟩ := abreast.take_mark start started taken ((listed.passes item.passes).trans within')
  rw [opens] at begins
  obtain ⟨inner, r', inside, same, fewer, reads⟩ := listed_answers marks item listed begins within'
  obtain ⟨ends, behind⟩ := inside.take_mark stop marks.stopped closed within
  rw [marks.closes, Reading.close, same] at behind
  have front := Tokens.length_tail here
  have back := Tokens.length_tail ends
  refine ⟨inner, r', here, inside, same, ends, behind, by omega, ?_⟩
  intro bound enough
  exact reads bound (by omega)

end Lists

section Forms

variable {g : Reader Expr} {e : Expr} {bound : Nat}

theorem group_answers (inner : Answers source all Descent.expression 0 g)
    (abreast : Abreast source all (.before opened) ts s) (read : group g s = .ok (e, s'))
    (within : s'.passed <:+ all) :
    Answered source all opened (fun bound => Descent.group (Descent.expression bound)) 3 ts e s' := by
  obtain ⟨open', inner', taken, inside, closed⟩ := group_ok.mp read
  have within' := (State.take_keepsPassed closed).trans within
  obtain ⟨here, begins⟩ := abreast.take_mark '(' rfl taken ((inner.passes inside).trans within')
  obtain ⟨mid, abreast', shorter, reads⟩ := inner.answers begins inside within'
  obtain ⟨ends, behind⟩ := abreast'.take_mark ')' rfl closed within
  have front := Tokens.length_tail here
  have back := Tokens.length_tail ends
  refine ⟨mid.tail, behind, by omega, ?_⟩
  intro bound enough
  exact Descent.group_ok.mpr ⟨here, mid, reads bound (by omega), ends, rfl⟩

theorem block_answers {r : Reading} (item : Answers source all Descent.expression 0 g)
    (abreast : Abreast source all r ts s) (read : block g bound s = .ok (e, s')) (within : s'.passed <:+ all) :
    ts.Ahead (.punctuation '\x7b') ∧
      ∃ ts', Abreast source all (.beyond r.opened) ts' s' ∧ ts'.list.length + 2 ≤ ts.list.length ∧
        (r.after = true → ∀ l, ts'.Ahead l → Reading.extends? (some l) = false) ∧
        ∀ bound, 4 * ts.list.length ≤ bound + 3 + 4 * ts'.list.length →
          Descent.block (Descent.expression bound) bound ts = .ok (e, ts') := by
  obtain ⟨items, open', inner', taken, inside, closed, rfl⟩ := block_ok.mp read
  have opens : r.next (.punctuation '\x7b') =
      .before ((if r.after then Bracket.branch else .block) :: r.opened) := rfl
  obtain ⟨inner, r', here, abreast', same, ends, behind, fewer, listed⟩ :=
    delimited_answers braces item rfl opens abreast taken inside closed within
  have outer : ((if r.after then Bracket.branch else .block) != .binders) = true := by
    cases r.after <;> rfl
  rw [outer] at behind
  refine ⟨here, inner.tail, behind, by omega, ?_, ?_⟩
  · intro after l next
    rw [after] at same
    exact abreast'.branch_ends ends same next
  · intro bound enough
    exact (Descent.block_ok (Descent.expression_visible bound)).mpr
      ⟨here, items, inner, by omega, listed bound (by omega), rfl, rfl⟩

theorem expression_of_block {ts' : Tokens} (here : ts.Ahead (.punctuation '\x7b'))
    (ends : ∀ l, ts'.Ahead l → Reading.extends? (some l) = false) {ahead : Option Lexeme}
    (peeked : ts'.peek = .ok ahead) (read : Descent.block (Descent.expression bound) bound ts = .ok (e, ts')) :
    Descent.expression (bound + 3) ts = .ok (e, ts') := by
  have brace : ts.peek = .ok (some (.punctuation '\x7b')) := here
  have atom : Descent.atom (bound + 1) ts = .ok (e, ts') := by
    simp only [Descent.atom, Descent.atomForm, brace, ok_bind]
    exact read
  have stopped : ahead ≠ some (.punctuation '(') := by
    rintro rfl
    cases ends _ peeked
  have loose : ∀ l, ahead = some l → Descent.levelAbove? 0 l = none := by
    rintro l rfl
    cases l with
    | operator symbol => cases ends _ peeked
    | _ => rfl
  have operand := Descent.operand_ok.mpr ⟨e, ts', atom, Descent.calls_stop peeked stopped⟩
  exact Descent.expression_ok.mpr ⟨e, ts', operand, Descent.operators_stop peeked loose⟩

theorem otherwise_answers (inner : Answers source all Descent.expression 0 g)
    (abreast : Abreast source all (.beyond opened) ts s) (read : Otherwise g s e s')
    (within : s'.passed <:+ all) :
    ∃ ts', Abreast source all (.beyond opened) ts' s' ∧ ts'.list.length ≤ ts.list.length ∧
      ∀ bound, 4 * ts.list.length ≤ bound + 4 * ts'.list.length →
        Descent.Otherwise (Descent.expression bound) ts e ts' := by
  rcases read with ⟨next, taken, read⟩ | ⟨other, rfl, rfl⟩
  · obtain ⟨here, begins⟩ := abreast.take_keyword .else_ taken ((inner.passes read).trans within)
    obtain ⟨ts', abreast', shorter, reads⟩ := inner.answers begins read within
    have front := Tokens.length_tail here
    exact ⟨ts', abreast', by omega, fun bound enough => .inl ⟨here, reads bound (by omega)⟩⟩
  · obtain ⟨ahead, peeked⟩ := abreast.agrees.peek
    refine ⟨ts, abreast, Nat.le_refl _, fun _ _ => .inr ⟨ahead, peeked, ?_, rfl, rfl⟩⟩
    rintro rfl
    exact other ((abreast.agrees.keyword .else_).mpr peeked)

theorem branch_answers (inner : Answers source all Descent.expression 0 g)
    (abreast : Abreast source all (.beyond opened) ts s) (read : Branch g bound s e s')
    (within : s'.passed <:+ all) :
    ∃ start ts', Descent.BranchAt ts start ∧ Abreast source all (.beyond opened) ts' s' ∧
      ts'.list.length < ts.list.length ∧
      ∀ bound, 4 * ts.list.length ≤ bound + 4 * ts'.list.length →
        Descent.expression bound start = .ok (e, ts') := by
  rcases read with ⟨_, read⟩ | ⟨next, taken, read⟩
  · obtain ⟨here, ts', abreast', fewer, ends, reads⟩ := block_answers inner abreast read within
    obtain ⟨ahead, peeked⟩ := abreast'.agrees.peek
    refine ⟨ts, ts', .inl ⟨here, rfl⟩, abreast', by omega, ?_⟩
    intro bound enough
    obtain ⟨bound, rfl⟩ : ∃ k, bound = k + 3 := ⟨bound - 3, by omega⟩
    exact expression_of_block here (ends rfl) peeked (reads bound (by omega))
  · obtain ⟨here, begins⟩ := abreast.take_keyword .then_ taken ((inner.passes read).trans within)
    obtain ⟨ts', abreast', shorter, reads⟩ := inner.answers begins read within
    have front := Tokens.length_tail here
    exact ⟨ts.tail, ts', .inr ⟨here, rfl⟩, abreast', by omega, fun bound enough => reads bound (by omega)⟩

theorem conditional_answers (inner : Answers source all Descent.expression 0 g)
    (abreast : Abreast source all (.before opened) ts s) (read : conditional g bound s = .ok (e, s'))
    (within : s'.passed <:+ all) :
    Answered source all opened (fun bound => Descent.conditional (Descent.expression bound)) 3 ts e s' := by
  obtain ⟨test, yes, no, first, after, behind, taken, tested, branch, otherwise, rfl⟩ := conditional_ok.mp read
  have third := (otherwise.passes inner.passes).trans within
  have second := (branch.passes inner.passes).trans third
  obtain ⟨here, begins⟩ := abreast.take_keyword .if_ taken ((inner.passes tested).trans second)
  obtain ⟨after', tests, shorter, reads⟩ := inner.answers begins tested second
  obtain ⟨start, behind', at', yes', shorter', reads'⟩ := branch_answers inner tests branch third
  obtain ⟨ts', last, shorter'', reads''⟩ := otherwise_answers inner yes' otherwise within
  have front := Tokens.length_tail here
  refine ⟨ts', last, by omega, ?_⟩
  intro bound enough
  exact Descent.conditional_ok.mpr ⟨here, test, yes, no, after', start, behind', reads bound (by omega), at',
    reads' bound (by omega), reads'' bound (by omega), rfl⟩

theorem name_answers : Answers source all (fun _ => Descent.name) 0 param := by
  refine ⟨param_keepsPassed, ?_⟩
  intro opened ts s s' x abreast read within
  obtain ⟨taken, rfl⟩ := param_ok.mp read
  obtain ⟨here, behind⟩ := abreast.take_name taken within
  have front := Tokens.length_tail here
  exact ⟨ts.tail, behind, by omega, fun _ _ => Descent.name_ok.mpr ⟨here, rfl⟩⟩

theorem binding_answers (inner : Answers source all Descent.expression 0 g) :
    Answers source all (fun bound => Descent.binding (Descent.expression bound)) 0 (binding g) := by
  refine ⟨binding_keepsPassed inner.passes, ?_⟩
  intro opened ts s s' b abreast read within
  obtain ⟨named, equals, init, first, second, given, rfl⟩ := binding_ok.mp read
  have second' := (inner.passes given).trans within
  obtain ⟨here, names⟩ := abreast.take_name first ((State.take_keepsPassed second).trans second')
  obtain ⟨l, sign, known, begins⟩ := names.take second second'
  cases Lexeme.eq_of_terminal known rfl
  obtain ⟨ts', last, shorter, reads⟩ := inner.answers begins given within
  have front := Tokens.length_tail here
  have back := Tokens.length_tail sign
  refine ⟨ts', last, by omega, ?_⟩
  intro bound enough
  exact Descent.binding_ok.mpr ⟨word s, init, here, sign, reads bound (by omega), rfl⟩

theorem selfName_answers {self : Option String} (abreast : Abreast source all (.heading opened) ts s)
    (read : selfName s = .ok (self, s')) (within : s'.passed <:+ all) :
    ∃ head, Abreast source all (.heading opened) head s' ∧ head.list.length ≤ ts.list.length ∧
      Descent.name? ts = .ok (self, head) := by
  rcases selfName_ok.mp read with ⟨taken, rfl⟩ | ⟨other, rfl, rfl⟩
  · obtain ⟨here, behind⟩ := abreast.take_name taken within
    have front := Tokens.length_tail here
    exact ⟨ts.tail, behind, by omega, Descent.name?_ok.mpr (.inl ⟨word s, here, rfl, rfl⟩)⟩
  · obtain ⟨ahead, peeked⟩ := abreast.agrees.peek
    refine ⟨ts, abreast, Nat.le_refl _, Descent.name?_ok.mpr (.inr ⟨ahead, peeked, ?_, rfl, rfl⟩)⟩
    rintro x rfl
    exact other (abreast.agrees.terminal?_eq peeked)

theorem bound_answers {α : Type} {f : Nat → Descent.Reader α} {item : Reader α} {after : Context}
    {binder : Lexeme} {self : Option String} {xs : List α} {body : Expr}
    (expression : Answers source all Descent.expression 0 g)
    (marks : Delimiters ')' ',' .rightParen .comma .listItem after) (items : Answers source all f 0 item)
    (abreast : Abreast source all (.before opened) ts s) (here : ts.Ahead binder)
    (heads : (Reading.before opened).next binder = .heading opened)
    (read : Bound g item bound s self xs body s') (within : s'.passed <:+ all) :
    ∃ head inner ts', Abreast source all (.beyond opened) ts' s' ∧ ts'.list.length + xs.length < ts.list.length ∧
      Descent.name? ts.tail = .ok (self, head) ∧ head.Ahead (.punctuation '(') ∧
      ∀ bound, 4 * ts.list.length ≤ bound + 3 + 4 * ts'.list.length →
        Descent.Listed ')' ',' (f bound) head.tail xs inner ∧
          Descent.expression bound inner.tail = .ok (body, ts') := by
  obtain ⟨first, head', open', inner', last, shifted, named, taken, listed, closed, bodied⟩ := read
  have fourth := (expression.passes bodied).trans within
  have third := ((itemsFrom_keepsPassed items.passes listed).trans (State.take_keepsPassed closed)).trans fourth
  have second := (State.take_keepsPassed taken).trans third
  have begins := abreast.shift here shifted ((selfName_keepsPassed named).trans second)
  rw [heads] at begins
  obtain ⟨head, abreast', fewer, name⟩ := selfName_answers begins named second
  have opens : (Reading.heading opened).next (.punctuation '(') = .before (Bracket.binders :: opened) := rfl
  obtain ⟨inner, _, start, _, _, _, behind, fewer', reads⟩ :=
    delimited_answers marks items rfl opens abreast' taken listed closed fourth
  obtain ⟨ts', ends, shorter, reads'⟩ := expression.answers behind bodied within
  have front := Tokens.length_tail here
  refine ⟨head, inner, ts', ends, by omega, name, start, ?_⟩
  intro bound enough
  exact ⟨reads bound (by omega), reads' bound (by omega)⟩

theorem function_answers {binder : Lexeme} (expression : Answers source all Descent.expression 0 g)
    (abreast : Abreast source all (.before opened) ts s) (here : ts.Ahead binder)
    (heads : (Reading.before opened).next binder = .heading opened)
    (read : function g bound s = .ok (e, s')) (within : s'.passed <:+ all) :
    Answered source all opened (fun bound => Descent.function (Descent.expression bound) bound) 3 ts e s' := by
  obtain ⟨self, params, body, bounded, rfl⟩ := function_ok.mp read
  have marks : Delimiters ')' ',' .rightParen .comma .listItem .afterParam := parentheses rfl rfl rfl
  obtain ⟨head, inner, ts', last, fewer, named, start, reads⟩ :=
    bound_answers expression marks name_answers abreast here heads bounded within
  refine ⟨ts', last, by omega, ?_⟩
  intro bound enough
  obtain ⟨listed, bodied⟩ := reads bound enough
  exact Descent.function_ok.mpr ⟨self, params, body, head, inner, named, start, by omega, listed, bodied, rfl⟩

theorem letForm_answers {binder : Lexeme} (expression : Answers source all Descent.expression 0 g)
    (abreast : Abreast source all (.before opened) ts s) (here : ts.Ahead binder)
    (heads : (Reading.before opened).next binder = .heading opened)
    (read : letForm g bound s = .ok (e, s')) (within : s'.passed <:+ all) :
    Answered source all opened (fun bound => Descent.letForm (Descent.expression bound) bound) 3 ts e s' := by
  obtain ⟨self, bindings, body, bounded, rfl⟩ := letForm_ok.mp read
  have marks : Delimiters ')' ',' .rightParen .comma .listItem .afterOperand := parentheses rfl rfl rfl
  obtain ⟨head, inner, ts', last, fewer, named, start, reads⟩ :=
    bound_answers expression marks (binding_answers expression) abreast here heads bounded within
  refine ⟨ts', last, by omega, ?_⟩
  intro bound enough
  obtain ⟨listed, bodied⟩ := reads bound enough
  exact Descent.letForm_ok.mpr ⟨self, bindings, body, head, inner, named, start, by omega, listed, bodied, rfl⟩

theorem leaf_answers {l : Lexeme} {e' : Expr} (abreast : Abreast source all (.before opened) ts s)
    (here : ts.Ahead l) (ends : (Reading.before opened).next l = .beyond opened)
    (read : leaf e s = .ok (e', s')) (within : s'.passed <:+ all) :
    Answered source all opened (fun _ ts => .ok (e, ts.tail)) 3 ts e' s' := by
  obtain ⟨shifted, rfl⟩ := leaf_ok.mp read
  have front := Tokens.length_tail here
  exact ⟨ts.tail, ends ▸ abreast.shift here shifted within, by omega, fun _ _ => rfl⟩

theorem Answered.congr {f f' : Nat → Descent.Reader Expr} {slack : Nat}
    (answered : Answered source all opened f slack ts e s') (same : ∀ bound, f' bound ts = f bound ts) :
    Answered source all opened f' slack ts e s' := by
  obtain ⟨ts', abreast, shorter, reads⟩ := answered
  exact ⟨ts', abreast, shorter, fun bound enough => (same bound).trans (reads bound enough)⟩

theorem atomForm_answers (inner : Answers source all Descent.expression 0 g)
    (abreast : Abreast source all (.before opened) ts s) (read : atomForm g bound s = .ok (e, s'))
    (within : s'.passed <:+ all) :
    Answered source all opened (fun bound => Descent.atomForm (Descent.expression bound) bound) 3 ts e s' := by
  have agrees := abreast.agrees
  unfold atomForm at read
  split at read
  · rename_i here
    have peeked : ts.peek = .ok (some (.punctuation '(')) := (agrees.mark rfl).mp here
    exact (group_answers inner abreast read within).congr (by simp [Descent.atomForm, peeked, ok_bind])
  · obtain ⟨peeked, ts', abreast', fewer, _, reads⟩ := block_answers inner abreast read within
    have block : Answered source all opened
        (fun bound => Descent.block (Descent.expression bound) bound) 3 ts e s' :=
      ⟨ts', abreast', by omega, reads⟩
    have peeked : ts.peek = .ok (some (.punctuation '\x7b')) := peeked
    exact block.congr (by simp [Descent.atomForm, peeked, ok_bind])
  · rename_i here
    have peeked : ts.peek = .ok (some (.keyword .if_)) := (agrees.keyword .if_).mp here
    exact (conditional_answers inner abreast read within).congr (by simp [Descent.atomForm, peeked, ok_bind])
  · rename_i here
    have peeked : ts.peek = .ok (some (.keyword .lambda)) := (agrees.keyword .lambda).mp here
    exact (function_answers inner abreast peeked rfl read within).congr
      (by simp [Descent.atomForm, peeked, ok_bind])
  · rename_i here
    have peeked : ts.peek = .ok (some (.keyword .lambdaSign)) := (agrees.keyword .lambdaSign).mp here
    exact (function_answers inner abreast peeked rfl read within).congr
      (by simp [Descent.atomForm, peeked, ok_bind])
  · rename_i here
    have peeked : ts.peek = .ok (some (.keyword .let_)) := (agrees.keyword .let_).mp here
    exact (letForm_answers inner abreast peeked rfl read within).congr
      (by simp [Descent.atomForm, peeked, ok_bind])
  · rename_i here
    obtain ⟨l, peeked, known⟩ := agrees.lexeme here
    obtain ⟨x, rfl⟩ := (Lexeme.valued_of_terminal known).2.1 rfl
    have same : x = Decimal.ofLiteral s.text := agrees.text peeked
    have peeked : ts.peek = .ok (some (.number x)) := peeked
    exact (leaf_answers abreast peeked rfl read within).congr
      (fun _ => by simp only [Descent.atomForm, peeked, ok_bind, same]; rfl)
  · rename_i here
    obtain ⟨l, peeked, known⟩ := agrees.lexeme here
    obtain ⟨x, rfl⟩ := (Lexeme.valued_of_terminal known).2.2 rfl
    have same : x = literalText s.text := agrees.text peeked
    have peeked : ts.peek = .ok (some (.text x)) := peeked
    exact (leaf_answers abreast peeked rfl read within).congr
      (fun _ => by simp only [Descent.atomForm, peeked, ok_bind, same]; rfl)
  · rename_i here
    have peeked : ts.peek = .ok (some (.keyword .true_)) := (agrees.keyword .true_).mp here
    exact (leaf_answers abreast peeked rfl read within).congr
      (fun _ => by simp only [Descent.atomForm, peeked, ok_bind]; rfl)
  · rename_i here
    have peeked : ts.peek = .ok (some (.keyword .false_)) := (agrees.keyword .false_).mp here
    exact (leaf_answers abreast peeked rfl read within).congr
      (fun _ => by simp only [Descent.atomForm, peeked, ok_bind]; rfl)
  · rename_i here
    obtain ⟨l, peeked, known⟩ := agrees.lexeme here
    obtain ⟨x, rfl⟩ := (Lexeme.valued_of_terminal known).1 rfl
    have same : x = word s := agrees.text peeked
    have peeked : ts.peek = .ok (some (.name x)) := peeked
    exact (leaf_answers abreast peeked rfl read within).congr
      (fun _ => by simp only [Descent.atomForm, peeked, ok_bind, same]; rfl)
  · exact absurd read (unexpected_ne _ _)

end Forms

section Expressions

variable {bound : Nat} {e : Expr}

def Continued (source : String) (all : List Located) (opened : List Bracket) (f : Nat → Descent.Reader Expr)
    (need : Nat) (ts : Tokens) (e : Expr) (s' : State) : Prop :=
  ∃ ts', Abreast source all (.beyond opened) ts' s' ∧ ts'.list.length ≤ ts.list.length ∧
    ∀ bound, 4 * ts.list.length + need ≤ bound + 4 * ts'.list.length → f bound ts = .ok (e, ts')

structure AllAnswer (source : String) (all : List Located) (bound : Nat) : Prop where
  expression : Answers source all Descent.expression 0 (expression bound)
  operand : Answers source all Descent.operand 1 (operand bound)
  atom : Answers source all Descent.atom 2 (atom bound)
  operators : ∀ {opened : List Bracket} {ts : Tokens} {s s' : State} {left e : Expr} {floor : Nat},
    Abreast source all (.beyond opened) ts s → operators bound left floor s = .ok (e, s') → s'.passed <:+ all →
      Continued source all opened (fun bound => Descent.operators bound left floor) 3 ts e s'
  calls : ∀ {opened : List Bracket} {ts : Tokens} {s s' : State} {func e : Expr},
    Abreast source all (.beyond opened) ts s → calls bound func s = .ok (e, s') → s'.passed <:+ all →
      Continued source all opened (fun bound => Descent.calls bound func) 2 ts e s'

theorem operators_answer (smaller : AllAnswer source all bound) {left : Expr} {floor : Nat}
    (abreast : Abreast source all (.beyond opened) ts s)
    (read : operators (bound + 1) left floor s = .ok (e, s')) (within : s'.passed <:+ all) :
    Continued source all opened (fun bound => Descent.operators bound left floor) 3 ts e s' := by
  rcases operators_cases read with ⟨loose, rfl, rfl⟩ | ⟨found, level, ahead, known, above⟩
  · obtain ⟨ahead, peeked⟩ := abreast.agrees.peek
    refine ⟨ts, abreast, Nat.le_refl _, ?_⟩
    intro bound enough
    obtain ⟨bound, rfl⟩ : ∃ k, bound = k + 1 := ⟨bound - 1, by omega⟩
    refine Descent.operators_stop peeked ?_
    rintro l rfl
    rw [← abreast.agrees.levelAbove? floor peeked, loose]
  · obtain ⟨next, right, behind, right', behind', shifted, first, others, rest⟩ :=
      (operators_go ahead known above).mp read
    have third := ((all_pass bound).operators _ floor rest).trans within
    have second := ((all_pass bound).operators right level others).trans third
    have first' := ((all_pass bound).operand first).trans second
    obtain ⟨symbol, here, known', same⟩ := abreast.agrees.operator ahead known
    have begins := abreast.shift here shifted first'
    obtain ⟨mid, abreast', shorter, reads⟩ := smaller.operand.answers begins first second
    obtain ⟨mid', abreast'', shorter', reads'⟩ := smaller.operators abreast' others third
    obtain ⟨ts', last, shorter'', reads''⟩ := smaller.operators abreast'' rest within
    have front := Tokens.length_tail here
    refine ⟨ts', last, by omega, ?_⟩
    intro bound enough
    obtain ⟨bound, rfl⟩ : ∃ k, bound = k + 1 := ⟨bound - 1, by omega⟩
    refine (Descent.operators_go here known' above).mpr ⟨right, mid, right', mid', reads bound (by omega),
      reads' bound (by omega), ?_⟩
    rw [← same]
    exact reads'' bound (by omega)

theorem calls_answer (smaller : AllAnswer source all bound) {func : Expr}
    (abreast : Abreast source all (.beyond opened) ts s)
    (read : calls (bound + 1) func s = .ok (e, s')) (within : s'.passed <:+ all) :
    Continued source all opened (fun bound => Descent.calls bound func) 2 ts e s' := by
  rcases calls_ok.mp read with ⟨other, rfl, rfl⟩ | ⟨args, next, first, rest⟩
  · obtain ⟨ahead, peeked⟩ := abreast.agrees.peek
    refine ⟨ts, abreast, Nat.le_refl _, ?_⟩
    intro bound enough
    obtain ⟨bound, rfl⟩ : ∃ k, bound = k + 1 := ⟨bound - 1, by omega⟩
    refine Descent.calls_stop peeked ?_
    rintro rfl
    exact other ((abreast.agrees.mark rfl).mpr peeked)
  · obtain ⟨open', inner', taken, listed, closed⟩ := arguments_ok.mp first
    have marks : Delimiters ')' ',' .rightParen .comma .operand .afterOperand := parentheses rfl rfl rfl
    have opens : (Reading.beyond opened).next (.punctuation '(') = .before (Bracket.group :: opened) := rfl
    obtain ⟨inner, _, here, _, _, _, behind, fewer, reads⟩ := delimited_answers marks smaller.expression rfl opens
      abreast taken listed closed (((all_pass bound).calls _ rest).trans within)
    obtain ⟨ts', last, shorter, reads'⟩ := smaller.calls behind rest within
    refine ⟨ts', last, by omega, ?_⟩
    intro bound enough
    obtain ⟨bound, rfl⟩ : ∃ k, bound = k + 1 := ⟨bound - 1, by omega⟩
    exact (Descent.calls_go here).mpr ⟨args, inner, by omega, reads bound (by omega), reads' bound (by omega)⟩

theorem readers_answer (source : String) (all : List Located) (bound : Nat) : AllAnswer source all bound := by
  induction bound with
  | zero =>
      have pass := all_pass 0
      exact ⟨⟨pass.expression, nofun⟩, ⟨pass.operand, nofun⟩, ⟨pass.atom, nofun⟩, nofun, nofun⟩
  | succ bound ih =>
      have pass := all_pass (bound + 1)
      refine ⟨⟨pass.expression, ?_⟩, ⟨pass.operand, ?_⟩, ⟨pass.atom, ?_⟩, operators_answer ih, calls_answer ih⟩
      · intro opened ts s s' e abreast read within
        obtain ⟨left, next, first, rest⟩ := expression_ok.mp read
        have within' := ((all_pass bound).operators left 0 rest).trans within
        obtain ⟨mid, abreast', shorter, reads⟩ := ih.operand.answers abreast first within'
        obtain ⟨ts', last, shorter', reads'⟩ := ih.operators abreast' rest within
        refine ⟨ts', last, by omega, ?_⟩
        intro bound enough
        obtain ⟨bound, rfl⟩ : ∃ k, bound = k + 1 := ⟨bound - 1, by omega⟩
        exact Descent.expression_ok.mpr ⟨left, mid, reads bound (by omega), reads' bound (by omega)⟩
      · intro opened ts s s' e abreast read within
        obtain ⟨func, next, first, rest⟩ := operand_ok.mp read
        have within' := ((all_pass bound).calls func rest).trans within
        obtain ⟨mid, abreast', shorter, reads⟩ := ih.atom.answers abreast first within'
        obtain ⟨ts', last, shorter', reads'⟩ := ih.calls abreast' rest within
        refine ⟨ts', last, by omega, ?_⟩
        intro bound enough
        obtain ⟨bound, rfl⟩ : ∃ k, bound = k + 1 := ⟨bound - 1, by omega⟩
        exact Descent.operand_ok.mpr ⟨func, mid, reads bound (by omega), reads' bound (by omega)⟩
      · intro opened ts s s' e abreast read within
        obtain ⟨ts', last, shorter, reads⟩ := atomForm_answers ih.expression abreast read within
        refine ⟨ts', last, shorter, ?_⟩
        intro bound enough
        obtain ⟨bound, rfl⟩ : ∃ k, bound = k + 1 := ⟨bound - 1, by omega⟩
        exact reads bound (by omega)

end Expressions

end Answering

section Programs

variable {source : String} {all : List Located} {ts : Tokens} {s s' : State} {es : List Expr}

theorem sequence_answers {bound : Nat} (abreast : Abreast source all (.before []) ts s)
    (read : sequence bound s = .ok (es, s')) (within : s'.passed <:+ all) :
    ∀ bound, 4 * ts.list.length + 1 ≤ bound → Descent.sequence bound ts = .ok es := by
  induction bound generalizing ts s es with
  | zero => cases read
  | succ bound ih =>
      intro bound' enough
      obtain ⟨bound', rfl⟩ : ∃ k, bound' = k + 1 := ⟨bound' - 1, by omega⟩
      rcases sequence_ok.mp read with ⟨none, rfl, rfl⟩ | ⟨e, behind, _, first, rest⟩
      · exact Descent.sequence_ok.mpr (.inl ⟨abreast.agrees.none_iff.mp none, rfl⟩)
      · have inner := (readers_answer source all bound).expression
        rcases rest with ⟨none, rfl, rfl⟩ | ⟨again, others, taken, more, rfl⟩
        · obtain ⟨ts', last, shorter, reads⟩ := inner.answers abreast first within
          have ended := last.agrees.none_iff.mp none
          exact Descent.sequence_ok.mpr (.inr ⟨e, ts', reads bound' (by omega), .inl ⟨ended, rfl⟩⟩)
        · have within' := (sequence_keepsPassed more).trans within
          obtain ⟨mid, abreast', shorter, reads⟩ :=
            inner.answers abreast first ((State.take_keepsPassed taken).trans within')
          obtain ⟨separated, next⟩ := abreast'.take_mark ';' rfl taken within'
          have front := Tokens.length_tail separated
          have tail := ih next more bound' (by omega)
          exact Descent.sequence_ok.mpr
            (.inr ⟨e, mid, reads bound' (by omega), .inr ⟨separated, others, tail, rfl⟩⟩)

theorem sequence_ended {bound : Nat} (read : sequence bound s = .ok (es, s')) : s'.terminal? = none := by
  induction bound generalizing s es with
  | zero => cases read
  | succ bound ih =>
      rcases sequence_ok.mp read with ⟨none, _, rfl⟩ | ⟨e, behind, _, _, rest⟩
      · exact none
      · rcases rest with ⟨none, _, rfl⟩ | ⟨again, others, _, more, _⟩
        · exact none
        · exact ih more

theorem abreast_ofSource {terminals : List Located}
    (coincide : List.Forall₂ Coincide (Tokens.ofSource source).list terminals)
    (clean : (Reading.before []).branchesEnd ((Tokens.ofSource source).list.map Token.lexeme) = true)
    (start : State.ofSource source = .ok s) (within : s.passed <:+ terminals.reverse) :
    Abreast source terminals.reverse (.before []) (.ofSource source) s := by
  obtain ⟨⟨ahead, cursor⟩, looked, made⟩ := bind_eq_ok.mp start
  cases made
  have split : terminals.reverse = terminals.reverse ++ [] := (List.append_nil _).symm
  have same : ∀ found, ahead = .terminal found →
      ∃ t rest, (Tokens.ofSource source).list = t :: rest ∧ Coincide t found := by
    rintro found rfl
    obtain ⟨rest, rfl⟩ := coming_head split within
    generalize (Tokens.ofSource source).list = list at coincide
    cases coincide with
    | cons first more => exact ⟨_, _, rfl, first⟩
  obtain ⟨agrees, inside, behind⟩ := look_coincides (Cursor.in_ofSource source) looked same
  exact ⟨⟨agrees, behind, inside, clean⟩, terminals, split, coincide⟩

theorem parse_answered {program : Expr} {terminals : List Located}
    (accepted : read source = .ok (program, terminals))
    (coincide : List.Forall₂ Coincide (Tokens.ofSource source).list terminals)
    (clean : (Reading.before []).branchesEnd ((Tokens.ofSource source).list.map Token.lexeme) = true) :
    Descent.parse source = .ok program := by
  obtain ⟨s, start, rest⟩ := bind_eq_ok.mp accepted
  obtain ⟨⟨es, s'⟩, made, result⟩ := bind_eq_ok.mp rest
  cases result
  have last : s'.passed = s'.taken := by
    have ended := sequence_ended made
    unfold State.terminal? at ended
    unfold State.passed
    cases ahead : s'.ahead with
    | terminal found =>
        rw [ahead] at ended
        cases ended
    | ended last => rfl
  have within : s'.passed <:+ s'.taken.reverse.reverse :=
    ⟨[], by rw [List.nil_append, List.reverse_reverse, last]⟩
  have abreast := abreast_ofSource coincide clean start ((sequence_keepsPassed made).trans within)
  have enough : 4 * (Tokens.ofSource source).list.length + 1 ≤ Descent.boundFor (.ofSource source) := by
    unfold Descent.boundFor
    omega
  rw [Descent.parse, Descent.program, sequence_answers abreast made within _ enough]
  rfl

end Programs

end Grammar

end Trampoline

import Trampoline.Proofs.Spelling

set_option autoImplicit false

namespace Trampoline

namespace Position

def behind (front : List Char) : Position :=
  ⟨front.length, 1 + front.count '\n', (front.reverse.takeWhile (· != '\n')).length⟩

theorem behind_push (front : List Char) (c : Char) : behind (front ++ [c]) = (behind front).advance c := by
  by_cases line : c = '\n'
  · subst line
    simp [behind, advance, Nat.add_assoc]
  · have other : (c != '\n') = true := by simpa using line
    simp [behind, advance, line, other]

theorem after_behind (front cs : List Char) : (behind front).after cs = behind (front ++ cs) := by
  induction cs generalizing front with
  | nil => simp [after]
  | cons c cs ih =>
      have rest := ih (front ++ [c])
      rw [behind_push, List.append_assoc] at rest
      exact rest

section Blanks

variable {body : List Char} (closed : '\n' ∉ body)

include closed

theorem skipBlanks_line (rest : List Char) (p : Position) :
    skipBlanks true (body ++ '\n' :: rest) p = skipBlanks false rest (p.after (body ++ ['\n'])) := by
  induction body generalizing p with
  | nil => rfl
  | cons c body ih =>
      obtain ⟨first, others⟩ := not_or.mp fun member => closed (List.mem_cons.mpr member)
      have inside : (c != '\n') = true := by simpa using Ne.symm first
      rw [List.cons_append, skipBlanks, inside, ih others]
      rfl

theorem skipBlanks_unended (p : Position) : skipBlanks true body p = ([], (p.after body).past) := by
  induction body generalizing p with
  | nil => rfl
  | cons c body ih =>
      obtain ⟨first, others⟩ := not_or.mp fun member => closed (List.mem_cons.mpr member)
      have inside : (c != '\n') = true := by simpa using Ne.symm first
      rw [skipBlanks, inside, ih others]
      rfl

end Blanks

end Position

def Token.slice (cs : List Char) (t : Token) : List Char :=
  (cs.drop t.start.offset).take (t.stop.offset - t.start.offset)

def Token.Covers (t : Token) (i : Nat) : Prop := t.start.offset ≤ i ∧ i < t.stop.offset

-- The first characters of a text, up to a place outside of comments and lexemes, are split into these tokens.
inductive Split (cs : List Char) : List Token → Nat → Prop where
  | start : Split cs [] 0
  | blank {ts : List Token} {n : Nat} {c : Char} {rest : List Char} :
      Split cs ts n → cs.drop n = c :: rest → Lexeme.isBlank c = true → Split cs ts (n + 1)
  | comment {ts : List Token} {n : Nat} {body rest : List Char} :
      Split cs ts n → cs.drop n = '#' :: (body ++ '\n' :: rest) → '\n' ∉ body →
        Split cs ts (n + (body.length + 2))
  | lastComment {ts : List Token} {n : Nat} {body : List Char} :
      Split cs ts n → cs.drop n = '#' :: body → '\n' ∉ body → Split cs ts (n + (body.length + 1))
  | token {ts : List Token} {n : Nat} {l : Lexeme} {slice after : List Char} :
      Split cs ts n → cs.drop n = slice ++ after → l.Cut slice after →
        Split cs (ts ++ [⟨l, .behind (cs.take n), .behind (cs.take (n + slice.length))⟩]) (n + slice.length)

def Stray (c : Char) : Prop := Lexeme.isBlank c = false ∧ c ≠ '#' ∧ ∀ l u, ¬ Lexeme.Spelled l (c :: u)

namespace Lexeme

theorem isBlank_iff {c : Char} : isBlank c = true ↔ c = ' ' ∨ c = '\t' ∨ c = '\n' := by
  simp [isBlank, or_assoc]

theorem Spelled.visible {l : Lexeme} {u : List Char} (spelled : Spelled l u) :
    ∃ c v, u = c :: v ∧ isBlank c = false ∧ c ≠ '#' := by
  have apart {p : Char → Bool} {c : Char} (here : p c = true)
      (outside : p ' ' = false ∧ p '\t' = false ∧ p '\n' = false ∧ p '#' = false) :
      isBlank c = false ∧ c ≠ '#' := by
    obtain ⟨space, tab, line, sign⟩ := outside
    refine ⟨?_, ?_⟩
    · cases blank : isBlank c with
      | false => rfl
      | true => rcases isBlank_iff.mp blank with rfl | rfl | rfl <;> simp_all
    · rintro rfl
      simp_all
  cases spelled with
  | mark mark => exact ⟨_, _, rfl, apart mark (by decide)⟩
  | operator signs => exact ⟨_, _, rfl, apart (signs _ List.mem_cons_self) (by decide)⟩
  | whole digits => exact ⟨_, _, rfl, apart (digits _ List.mem_cons_self) (by decide)⟩
  | decimal digits _ => exact ⟨_, _, rfl, apart (digits _ List.mem_cons_self) (by decide)⟩
  | closed _ => exact ⟨_, _, rfl, by decide⟩
  | open_ _ => exact ⟨_, _, rfl, by decide⟩
  | broken _ => exact ⟨_, _, rfl, by decide⟩
  | word start _ => exact ⟨_, _, rfl, apart start (by decide)⟩
  | slashed => exact ⟨'c', _, rfl, by decide⟩

theorem munch?_none_iff {c : Char} {cs : List Char} :
    munch? (c :: cs) = none ↔ ∀ l u, ¬ Spelled l (c :: u) := by
  constructor
  · intro none l u spelled
    obtain ⟨_, _, found, _⟩ := spelled.munch?_long []
    -- whether there is a lexeme depends on the first character only
    have some : munch? (c :: cs) ≠ Option.none := by
      simp only [List.cons_append, munch?] at found ⊢
      split
      · simp
      split
      · simp
      split
      · simp
      split
      · simp
      split
      · simp
      · simp_all
    exact some none
  · intro unspelled
    cases found : munch? (c :: cs) with
    | none => rfl
    | some r =>
        obtain ⟨l, slice⟩ := r
        obtain ⟨after, same, cut⟩ := cut_of_munch? found
        obtain ⟨d, v, rfl, _⟩ := cut.spelled.visible
        cases same
        exact absurd cut.spelled (unspelled l v)

theorem Spelled.value {l : Lexeme} {u : List Char} (spelled : Spelled l u) :
    l.value = String.ofList u ∨ (∃ x, l = .number x) ∨ ∃ s, l = .text s := by
  cases spelled with
  | mark _ => exact .inl rfl
  | operator _ => exact .inl rfl
  | whole _ => exact .inr (.inl ⟨_, rfl⟩)
  | decimal _ _ => exact .inr (.inl ⟨_, rfl⟩)
  | closed _ => exact .inr (.inr ⟨_, rfl⟩)
  | open_ _ => exact .inr (.inr ⟨_, rfl⟩)
  | broken _ => exact .inr (.inr ⟨_, rfl⟩)
  | word _ _ =>
      rcases Grammar.ofName_cases (String.ofList _) with ⟨w, keyword, text⟩ | ⟨name, _⟩
      · rw [keyword]
        exact .inl text.symm
      · rw [name]
        exact .inl rfl
  | slashed => exact .inl rfl

theorem Cut.closed {s : String} {slice after : List Char} (cut : Cut (.text s) slice after) :
    after = [] ∨ ∃ raw text, Escaped raw text ∧ slice = '"' :: (raw ++ ['"']) ∧ s = String.ofList text := by
  obtain ⟨spelled, unextended, _, _⟩ := cut
  generalize same : Lexeme.text s = l at spelled
  cases spelled with
  | mark _ => cases same
  | operator _ => cases same
  | whole _ => cases same
  | decimal _ _ => cases same
  | @closed raw text escaped => exact .inr ⟨raw, text, escaped, rfl, Lexeme.text.inj same⟩
  | open_ escaped => exact .inl (unextended.last (open_extends escaped))
  | broken escaped => exact .inl (unextended.last (broken_extends escaped))
  | word _ _ =>
      rcases Grammar.ofName_cases (String.ofList _) with ⟨_, keyword, _⟩ | ⟨name, _⟩
      · rw [keyword] at same
        cases same
      · rw [name] at same
        cases same
  | slashed => cases same

end Lexeme

def Cursor.into (cs : List Char) (n : Nat) : Cursor := ⟨cs.drop n, .behind (cs.take n), cs.length⟩

namespace Tokens

theorem ofCursor_congr {c d : Cursor} (same : c.skipBlanks = d.skipBlanks) : ofCursor c = ofCursor d := by
  rw [ofCursor_eq, ofCursor_eq d, Cursor.scan, Cursor.scan, same]

end Tokens

section Steps

variable {cs : List Char} {n : Nat}

theorem behind_take {u rest : List Char} (here : cs.drop n = u ++ rest) :
    Position.behind (cs.take (n + u.length)) = (Position.behind (cs.take n)).after u := by
  rw [Position.after_behind, List.take_add, here, List.take_left]

theorem drop_past {u rest : List Char} (here : cs.drop n = u ++ rest) :
    cs.drop (n + u.length) = rest := by
  rw [← List.drop_drop, here, List.drop_left]

theorem fits_past {u rest : List Char} (here : cs.drop n = u ++ rest) (fits : n ≤ cs.length) :
    n + u.length ≤ cs.length := by
  have whole := congrArg List.length here
  rw [List.length_drop, List.length_append] at whole
  omega

theorem getElem?_past {u : List Char} (here : cs.drop n = u) (k : Nat) : cs[n + k]? = u[k]? := by
  rw [← here, List.getElem?_drop]

theorem skipBlanks_into {u rest : List Char} (here : cs.drop n = u ++ rest)
    (skips : ∀ p, Position.skipBlanks false (u ++ rest) p = Position.skipBlanks false rest (p.after u)) :
    (Cursor.into cs n).skipBlanks = (Cursor.into cs (n + u.length)).skipBlanks := by
  simp only [Cursor.skipBlanks, Cursor.into, behind_take here, drop_past here, here, skips]

end Steps

namespace Tokens

variable {cs : List Char} {n : Nat}

theorem complete_ended {c : Cursor} (empty : c.skipBlanks.rest = []) : (ofCursor c).complete = .ok [] := by
  have ended : c.scan = .ended c.skipBlanks := by simp only [Cursor.scan, empty]
  rw [ofCursor_eq, ended]
  rfl

theorem complete_token {l : Lexeme} {slice after : List Char} (here : cs.drop n = slice ++ after)
    (cut : l.Cut slice after) :
    (ofCursor (.into cs n)).complete = (ofCursor (.into cs (n + slice.length))).complete.map
      ([⟨l, .behind (cs.take n), .behind (cs.take (n + slice.length))⟩] ++ ·) := by
  obtain ⟨c, v, rfl, blank, sign⟩ := cut.spelled.visible
  have stays : (Cursor.into cs n).skipBlanks = Cursor.into cs n := by
    simp [Cursor.skipBlanks, Cursor.into, here, Position.skipBlanks, blank, sign]
  have next : (Cursor.into cs n).skip (c :: v) = Cursor.into cs (n + (c :: v).length) := by
    simp only [Cursor.skip, Cursor.into, behind_take here, List.drop_drop]
  have found : (Cursor.into cs n).scan = .token
      ⟨l, .behind (cs.take n), .behind (cs.take (n + (c :: v).length))⟩
      (.into cs (n + (c :: v).length)) := by
    have munched := cut.munch?
    have front : (Cursor.into cs n).rest = c :: (v ++ after) := here
    rw [List.cons_append] at munched
    simp only [Cursor.scan, stays, front, munched, next]
    rfl
  rw [ofCursor_eq, found]
  simp only [complete]
  cases (ofCursor (Cursor.into cs (n + (c :: v).length))).ending <;> rfl

theorem complete_stray {c : Char} {rest : List Char} (here : cs.drop n = c :: rest) (stray : Stray c) :
    (ofCursor (.into cs n)).complete =
      .error ((ParseCause.strayCharacter c).located (.behind (cs.take n))) := by
  obtain ⟨blank, sign, unspelled⟩ := stray
  have stays : (Cursor.into cs n).skipBlanks = Cursor.into cs n := by
    simp [Cursor.skipBlanks, Cursor.into, here, Position.skipBlanks, blank, sign]
  have found : (Cursor.into cs n).scan = .stray c (.into cs n) := by
    have front : (Cursor.into cs n).rest = c :: rest := here
    simp only [Cursor.scan, stays, front, Lexeme.munch?_none_iff.mpr unspelled]
  rw [ofCursor_eq, found]
  rfl

end Tokens

namespace Split

variable {cs : List Char} {ts : List Token} {n : Nat}

theorem complete (split : Split cs ts n) :
    (Tokens.ofCursor (.into cs 0)).complete = (Tokens.ofCursor (.into cs n)).complete.map (ts ++ ·) := by
  induction split with
  | start => cases (Tokens.ofCursor (.into cs 0)).complete <;> rfl
  | @blank ts n c rest _ here blank ih =>
      have skipped := skipBlanks_into (u := [c]) here fun p => by
        rw [List.singleton_append, Position.skipBlanks, if_pos blank]
        rfl
      rw [ih, Tokens.ofCursor_congr skipped]
      rfl
  | @comment ts n body rest _ here closed ih =>
      have front : cs.drop n = ('#' :: (body ++ ['\n'])) ++ rest := by rw [here]; simp
      have skipped := skipBlanks_into front fun p => by
        rw [List.cons_append, Position.skipBlanks, if_neg (by decide), if_pos rfl, List.append_assoc]
        exact Position.skipBlanks_line closed rest (p.advance '#')
      rw [ih, Tokens.ofCursor_congr skipped]
      simp [Nat.add_assoc]
  | @lastComment ts n body _ here closed ih =>
      have empty : (Cursor.into cs n).skipBlanks.rest = [] := by
        have unended := Position.skipBlanks_unended closed
        simp [Cursor.skipBlanks, Cursor.into, here, Position.skipBlanks, Lexeme.isBlank, unended]
      have front : cs.drop n = ('#' :: body) ++ [] := by rw [here, List.append_nil]
      have rest : (Cursor.into cs (n + ('#' :: body).length)).skipBlanks.rest = [] := by
        simp only [Cursor.skipBlanks, Cursor.into, drop_past front, Position.skipBlanks]
      rw [ih, Tokens.complete_ended empty, ← Tokens.complete_ended rest]
      rfl
  | @token ts n l slice after _ here cut ih =>
      rw [ih, Tokens.complete_token here cut]
      cases (Tokens.ofCursor (Cursor.into cs (n + slice.length))).complete <;> simp [Except.map]

theorem fits (split : Split cs ts n) : n ≤ cs.length := by
  induction split with
  | start => exact Nat.zero_le _
  | @blank ts n c rest _ here _ ih => exact fits_past (u := [c]) here ih
  | @comment ts n body rest _ here _ ih =>
      have front : cs.drop n = ('#' :: (body ++ ['\n'])) ++ rest := by rw [here]; simp
      simpa [Nat.add_assoc] using fits_past front ih
  | @lastComment ts n body _ here _ ih =>
      exact fits_past (u := '#' :: body) (here.trans (List.append_nil _).symm) ih
  | token _ here _ ih => exact fits_past here ih

theorem munch (split : Split cs ts n) {u slice : List Char} {l : Lexeme} (here : cs.drop n = u)
    (found : Lexeme.munch? u = some (l, slice)) :
    Split cs (ts ++ [⟨l, .behind (cs.take n), .behind (cs.take (n + slice.length))⟩]) (n + slice.length) := by
  obtain ⟨after, rfl, cut⟩ := Lexeme.cut_of_munch? found
  exact split.token here cut

theorem step (split : Split cs ts n) (more : n < cs.length) :
    (∃ ts' n', n < n' ∧ Split cs ts' n') ∨ ∃ c rest, cs.drop n = c :: rest ∧ Stray c := by
  have here := List.drop_eq_getElem_cons more
  generalize cs[n] = c, cs.drop (n + 1) = rest at here
  cases blank : Lexeme.isBlank c with
  | true => exact .inl ⟨ts, n + 1, by omega, split.blank here blank⟩
  | false =>
      by_cases sign : c = '#'
      · subst sign
        by_cases line : '\n' ∈ rest
        · obtain ⟨body, behind, rfl, closed⟩ := List.eq_append_cons_of_mem line
          exact .inl ⟨ts, _, by omega, split.comment here closed⟩
        · exact .inl ⟨ts, _, by omega, split.lastComment here line⟩
      · cases found : Lexeme.munch? (c :: rest) with
        | none => exact .inr ⟨c, rest, here, blank, sign, Lexeme.munch?_none_iff.mp found⟩
        | some taken =>
            obtain ⟨l, slice⟩ := taken
            have long := List.length_pos_iff.mpr (Lexeme.munch?_ne_nil found)
            exact .inl ⟨_, _, by omega, split.munch here found⟩

theorem ends (split : Split cs ts n) : ∃ ts' n', Split cs ts' n' ∧
    (n' = cs.length ∨ ∃ c rest, cs.drop n' = c :: rest ∧ Stray c) := by
  have fits := split.fits
  generalize left : cs.length - n = k
  induction k using Nat.strongRecOn generalizing ts n with
  | ind k ih =>
      by_cases last : n = cs.length
      · exact ⟨ts, n, split, .inl last⟩
      · rcases split.step (by omega) with ⟨ts', n', further, next⟩ | stray
        · have fits' := next.fits
          exact ih _ (by omega) next fits' rfl
        · exact ⟨ts, n, split, .inr stray⟩

end Split

def Commented (cs : List Char) (ts : List Token) (i : Nat) : Prop :=
  ∃ j ≤ i, cs[j]? = some '#' ∧ ∀ k, j ≤ k → k ≤ i → cs[k]? ≠ some '\n' ∧ ∀ t ∈ ts, ¬ t.Covers k

theorem Commented.snoc {cs : List Char} {ts : List Token} {i : Nat} {t : Token} (commented : Commented cs ts i)
    (before : i < t.start.offset) : Commented cs (ts ++ [t]) i := by
  obtain ⟨j, first, sign, between⟩ := commented
  refine ⟨j, first, sign, ?_⟩
  intro k low high
  obtain ⟨line, free⟩ := between k low high
  refine ⟨line, List.forall_mem_append.mpr ⟨free, List.forall_mem_singleton.mpr ?_⟩⟩
  intro covers
  have begun := covers.1
  omega

structure Lossless (cs : List Char) (ts : List Token) (n : Nat) : Prop where
  spans : ∀ t ∈ ts, t.start.offset < t.stop.offset ∧ t.stop.offset ≤ n
  ordered : ts.Pairwise fun s t => s.stop.offset ≤ t.start.offset
  outside : ∀ i < n, (∀ t ∈ ts, ¬ t.Covers i) →
    (∃ c, cs[i]? = some c ∧ Lexeme.isBlank c = true) ∨ Commented cs ts i
  spelled : ∀ t ∈ ts, t.lexeme.Spelled (t.slice cs)
  verbatim : ∀ t ∈ ts, t.lexeme.value = String.ofList (t.slice cs) ∨
    (∃ x, t.lexeme = .number x) ∨ ∃ s, t.lexeme = .text s
  closed : ∀ t ∈ ts, ∀ s, t.lexeme = .text s → t.stop.offset = cs.length ∨
    ∃ raw text, Lexeme.Escaped raw text ∧ t.slice cs = '"' :: (raw ++ ['"']) ∧ s = String.ofList text
  maximal : ∀ t ∈ ts, ∀ c, cs[t.stop.offset]? = some c → ∀ l, ¬ Lexeme.Spelled l (t.slice cs ++ [c])
  places : ∀ t ∈ ts, t.start = .behind (cs.take t.start.offset) ∧ t.stop = .behind (cs.take t.stop.offset)

namespace Lossless

variable {cs : List Char} {ts : List Token} {n : Nat}

theorem uncovered (kept : Lossless cs ts n) {i : Nat} (past : n ≤ i) : ∀ t ∈ ts, ¬ t.Covers i := by
  intro t member covers
  have span := kept.spans t member
  have stop := covers.2
  omega

theorem skip (kept : Lossless cs ts n) {m : Nat} (grows : n ≤ m)
    (outside : ∀ i, n ≤ i → i < m →
      (∃ c, cs[i]? = some c ∧ Lexeme.isBlank c = true) ∨ Commented cs ts i) : Lossless cs ts m where
  spans t member := ⟨(kept.spans t member).1, Nat.le_trans (kept.spans t member).2 grows⟩
  ordered := kept.ordered
  outside i before free := by
    by_cases old : i < n
    · exact kept.outside i old free
    · exact outside i (by omega) before
  spelled := kept.spelled
  verbatim := kept.verbatim
  closed := kept.closed
  maximal := kept.maximal
  places := kept.places

theorem comment (kept : Lossless cs ts n) {body rest : List Char} (here : cs.drop n = '#' :: (body ++ rest))
    (closed : '\n' ∉ body) {i : Nat} (past : n ≤ i) (inside : i < n + (body.length + 1)) :
    Commented cs ts i := by
  refine ⟨n, past, by simpa using getElem?_past here 0, ?_⟩
  intro k first last
  refine ⟨?_, kept.uncovered first⟩
  obtain ⟨k, rfl⟩ := Nat.exists_eq_add_of_le first
  rw [getElem?_past here]
  cases k with
  | zero => simp
  | succ k =>
      have short : k < body.length := by omega
      rw [List.getElem?_cons_succ, List.getElem?_append_left short, List.getElem?_eq_getElem short]
      intro same
      exact closed (Option.some.inj same ▸ List.getElem_mem short)

theorem token (kept : Lossless cs ts n) (fits : n ≤ cs.length) {l : Lexeme} {slice after : List Char}
    (here : cs.drop n = slice ++ after) (cut : l.Cut slice after) :
    Lossless cs (ts ++ [⟨l, .behind (cs.take n), .behind (cs.take (n + slice.length))⟩]) (n + slice.length) := by
  generalize made : (⟨l, .behind (cs.take n), .behind (cs.take (n + slice.length))⟩ : Token) = new
  have start : new.start.offset = n := by
    rw [← made]
    exact List.length_take_of_le fits
  have stop : new.stop.offset = n + slice.length := by
    rw [← made]
    exact List.length_take_of_le (fits_past here fits)
  have lexeme : new.lexeme = l := by rw [← made]
  have text : new.slice cs = slice := by
    rw [Token.slice, start, stop, Nat.add_sub_cancel_left, here, List.take_left]
  have next (k : Nat) : cs[n + slice.length + k]? = after[k]? := getElem?_past (drop_past here) k
  obtain ⟨c, v, shape, _⟩ := cut.spelled.visible
  have long : 0 < slice.length := by simp [shape]
  -- of the old tokens, nothing changes but the bound
  have each {P : Token → Prop} (old : ∀ t ∈ ts, P t) (last : P new) : ∀ t ∈ ts ++ [new], P t :=
    List.forall_mem_append.mpr ⟨old, List.forall_mem_singleton.mpr last⟩
  refine ⟨each ?_ ?_, ?_, ?_, each kept.spelled ?_, each kept.verbatim ?_, each kept.closed ?_,
    each kept.maximal ?_, each kept.places ?_⟩
  · intro t member
    have span := kept.spans t member
    omega
  · omega
  · refine List.pairwise_append.mpr ⟨kept.ordered, List.pairwise_singleton _ _, ?_⟩
    intro s member t last
    rw [List.mem_singleton.mp last, start]
    exact (kept.spans s member).2
  · intro i before free
    obtain ⟨others, this⟩ := List.forall_mem_append.mp free
    have outside : i < n := by
      have uncovered := this new (List.mem_singleton.mpr rfl)
      simp only [Token.Covers, start, stop] at uncovered
      omega
    exact (kept.outside i outside others).imp_right fun commented => commented.snoc (start.symm ▸ outside)
  · rw [lexeme, text]
    exact cut.spelled
  · rw [lexeme, text]
    exact cut.spelled.value
  · intro s same
    rw [lexeme] at same
    rw [text, stop]
    subst same
    rcases cut.closed with rfl | closed
    · have whole := congrArg List.length here
      rw [List.append_nil, List.length_drop] at whole
      exact .inl (by omega)
    · exact .inr closed
  · intro d found l'
    rw [stop] at found
    rw [text]
    refine cut.unextended d l' ?_
    rw [List.head?_eq_getElem?, ← next 0]
    exact found
  · rw [start, stop, ← made]
    exact ⟨rfl, rfl⟩

end Lossless

theorem Split.lossless {cs : List Char} {ts : List Token} {n : Nat} (split : Split cs ts n) :
    Lossless cs ts n := by
  induction split with
  | start => exact ⟨by simp, .nil, by omega, by simp, by simp, by simp, by simp, by simp⟩
  | @blank ts n c rest _ here blank kept =>
      refine kept.skip (by omega) fun i first last => .inl ⟨c, ?_, blank⟩
      obtain rfl : i = n := by omega
      exact getElem?_past here 0
  | @comment ts n body rest _ here closed kept =>
      refine kept.skip (by omega) fun i first last => ?_
      by_cases line : i = n + (body.length + 1)
      · refine .inl ⟨'\n', ?_, rfl⟩
        rw [line, getElem?_past here]
        simp
      · exact .inr (kept.comment here closed first (by omega))
  | @lastComment ts n body _ here closed kept =>
      have front : cs.drop n = '#' :: (body ++ []) := by rw [here, List.append_nil]
      exact kept.skip (by omega) fun i first last => .inr (kept.comment front closed first last)
  | token split here cut kept => exact kept.token split.fits here cut

-- The tokenizer succeeds exactly on the sources that split to their end, with the tokens of the split, and fails
-- exactly on those whose split stops before a character that begins nothing, at its place. A split leaves out
-- blanks and comments only, and cuts no lexeme short.
theorem tokenize_splits (source : String) :
    (∀ ts, tokenize source = .ok ts ↔ Split source.toList ts source.toList.length) ∧
    (∀ e, tokenize source = .error e ↔ ∃ ts n c, Split source.toList ts n ∧ source.toList[n]? = some c ∧
      Stray c ∧ e = (ParseCause.strayCharacter c).located (.behind (source.toList.take n))) ∧
    ∀ ts n, Split source.toList ts n → Lossless source.toList ts n := by
  have whole {ts} (split : Split source.toList ts source.toList.length) : tokenize source = .ok ts := by
    have empty : (Cursor.into source.toList source.toList.length).skipBlanks.rest = [] := by
      simp only [Cursor.skipBlanks, Cursor.into, List.drop_length, Position.skipBlanks]
    have done := split.complete
    rw [Tokens.complete_ended empty] at done
    exact done.trans (congrArg Except.ok (List.append_nil ts))
  have stopped {ts n c rest} (split : Split source.toList ts n) (here : source.toList.drop n = c :: rest)
      (stray : Stray c) :
      tokenize source =
        .error ((ParseCause.strayCharacter c).located (.behind (source.toList.take n))) := by
    have done := split.complete
    rw [Tokens.complete_stray here stray] at done
    exact done
  obtain ⟨ts, n, split, ends⟩ := (Split.start : Split source.toList [] 0).ends
  refine ⟨fun ts' => ⟨fun ok => ?_, whole⟩, fun e => ⟨fun failed => ?_, ?_⟩, fun ts n => Split.lossless⟩
  · rcases ends with last | ⟨c, rest, here, stray⟩
    · subst last
      cases (whole split).symm.trans ok
      exact split
    · cases (stopped split here stray).symm.trans ok
  · rcases ends with last | ⟨c, rest, here, stray⟩
    · subst last
      cases (whole split).symm.trans failed
    · cases (stopped split here stray).symm.trans failed
      exact ⟨ts, n, c, split, by simpa using getElem?_past here 0, stray, rfl⟩
  · rintro ⟨ts, n, c, split, found, stray, rfl⟩
    obtain ⟨before, same⟩ := List.getElem?_eq_some_iff.mp found
    have here := List.drop_eq_getElem_cons before
    rw [same] at here
    exact stopped split here stray

theorem callBeforeSign_splits : ∃ ts, Split "call/cc1 $".toList ts 9 ∧ Lossless "call/cc1 $".toList ts 9 ∧
    tokenize "call/cc1 $" = .error ⟨.strayCharacter '$', 1, 9⟩ := by
  have call := (Split.start : Split "call/cc1 $".toList [] 0).munch rfl
    (rfl : Lexeme.munch? "call/cc1 $".toList = some (.name "call", "call".toList))
  have slash := call.munch rfl (rfl : Lexeme.munch? "/cc1 $".toList = some (.operator "/", ['/']))
  have name := slash.munch rfl (rfl : Lexeme.munch? "cc1 $".toList = some (.name "cc1", "cc1".toList))
  have split := name.blank (rfl : "call/cc1 $".toList.drop 8 = ' ' :: ['$']) rfl
  have stray : Stray '$' := ⟨rfl, by decide, Lexeme.munch?_none_iff.mp (rfl : Lexeme.munch? ['$'] = none)⟩
  obtain ⟨_, failed, kept⟩ := tokenize_splits "call/cc1 $"
  exact ⟨_, split, kept _ _ split, (failed _).mpr ⟨_, 9, '$', split, rfl, stray, rfl⟩⟩

end Trampoline

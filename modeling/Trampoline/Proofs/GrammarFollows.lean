import Trampoline.Proofs.Lockstep

set_option autoImplicit false

namespace Trampoline

namespace Grammar

section Allowing

variable {context : Context} {ts ts' : Tokens} {l : Lexeme}

def Context.Allows (context : Context) (ts : Tokens) : Prop :=
  ∃ ahead, ts.peek = .ok ahead ∧ ∀ l, ahead = some l → context.admits l = true

theorem allows_of_ahead (ahead : ts.Ahead l) (admitted : context.admits l = true) : context.Allows ts := by
  refine ⟨some l, ahead, ?_⟩
  rintro _ ⟨⟩
  exact admitted

theorem allows_at_end (ended : ts.peek = .ok none) : context.Allows ts := ⟨none, ended, by simp⟩

theorem allows_before_calls {bound : Nat} {func e : Expr} (read : Descent.calls bound func ts = .ok (e, ts'))
    (allowed : Context.afterOperand.Allows ts') : Context.afterOperand.Allows ts := by
  cases bound with
  | zero => cases read
  | succ bound =>
      rcases Descent.calls_cases read with ⟨_, _, _, _, rfl⟩ | ahead
      · exact allowed
      · exact allows_of_ahead ahead rfl

theorem ofOperator?_of_precedence {symbol : String} {level : Nat}
    (known : Descent.precedence? symbol = some level) : (Lexeme.ofOperator? symbol).isSome = true := by
  unfold Descent.precedence? at known
  split at known <;> cases known <;> rfl

theorem allows_before_operators {bound floor : Nat} {left e : Expr}
    (read : Descent.operators bound left floor ts = .ok (e, ts'))
    (allowed : Context.afterOperand.Allows ts') : Context.afterOperand.Allows ts := by
  cases bound with
  | zero => cases read
  | succ bound =>
      rcases Descent.operators_cases read with ⟨_, _, _, _, rfl⟩ | ⟨symbol, level, ahead, known, _⟩
      · exact allowed
      · exact allows_of_ahead ahead (ofOperator?_of_precedence known)

end Allowing

def PlainTokens (source : String) (ts : Tokens) : Prop :=
  ∀ t ∈ ts.list, t.lexeme.PlainAt (source.toList.drop t.start.offset)

instance (source : String) (ts : Tokens) : Decidable (PlainTokens source ts) :=
  inferInstanceAs (Decidable (∀ t ∈ ts.list, t.lexeme.PlainAt (source.toList.drop t.start.offset)))

theorem look_allowed {source : String} {context : Context} {cursor : Cursor} (last : Position)
    (inside : cursor.In source) (plain : PlainTokens source (.ofCursor cursor))
    (allowed : context.Allows (.ofCursor cursor)) :
    ∃ ahead cursor', look context cursor last = .ok (ahead, cursor') ∧
      Agrees (.ofCursor cursor) ahead ∧ cursor'.In source ∧
      ∀ t rest, (Tokens.ofCursor cursor).list = t :: rest →
        Tokens.ofCursor cursor' = (Tokens.ofCursor cursor).tail := by
  obtain ⟨ahead?, peeked, admitted⟩ := allowed
  have blanks := Cursor.in_skipBlanks inside
  cases tokens : (Tokens.ofCursor cursor).list with
  | nil =>
      cases ending : (Tokens.ofCursor cursor).ending with
      | stray c p => simp [Tokens.peek, tokens, ending, Tokens.fault] at peeked
      | ended p =>
          have nothing := Tokens.ofCursor_nil tokens ending
          have ended : (Tokens.ofCursor cursor).peek = .ok none := by simp [Tokens.peek, tokens, ending]
          exact ⟨.ended last, cursor.skipBlanks, look_ok.mpr (.inl ⟨nothing, rfl, rfl⟩), .ended ended, blanks,
            by rintro _ _ ⟨⟩⟩
  | cons t rest =>
      obtain ⟨after, scanned, others⟩ := Tokens.ofCursor_cons tokens
      obtain ⟨slice, munched, start, rfl, _⟩ := Cursor.scan_token scanned
      have ahead : (Tokens.ofCursor cursor).Ahead t.lexeme := Tokens.ahead_iff.mpr ⟨t, rest, tokens, rfl⟩
      have here := plain t (by simp [tokens])
      have text : source.toList.drop t.start.offset = cursor.skipBlanks.rest := by rw [start, blanks]
      rw [text] at here
      have allowed := admitted _ (Except.ok.inj (peeked.symm.trans ahead))
      obtain ⟨terminal, recognised, known, bears⟩ :=
        recognise_of_munched (Lexeme.munched munched) here allowed
      refine ⟨.terminal ⟨terminal, slice, cursor.skipBlanks.pos⟩, cursor.skipBlanks.skip slice, ?_,
        .terminal ahead known bears, Cursor.in_skip blanks slice, ?_⟩
      · exact look_ok.mpr (.inr ⟨terminal, slice, recognised, rfl, rfl⟩)
      · rintro t' rest' same
        rw [others]
        simp [Tokens.tail, tokens]

-- Both front ends stand at the same place, and all tokens from here on are plain.
structure Stands (source : String) (r : Reading) (ts : Tokens) (s : State) : Prop
    extends Together source r ts s where
  plain : PlainTokens source ts

namespace Stands

variable {source : String} {r : Reading} {ts : Tokens} {s : State} {l : Lexeme} {context : Context}

theorem shift (stands : Stands source r ts s) (ahead : ts.Ahead l) (allowed : context.Allows ts.tail) :
    ∃ s', s.shift context = .ok s' ∧ Stands source (r.next l) ts.tail s' := by
  obtain ⟨t, rest, tokens, lexeme⟩ := Tokens.ahead_iff.mp ahead
  have cursor := stands.cursor t rest tokens
  have tail : ts.tail.list = rest := by simp [Tokens.tail, tokens]
  have plain : PlainTokens source ts.tail := by
    intro t' member
    exact stands.plain t' (tokens ▸ List.mem_cons_of_mem t (tail ▸ member))
  obtain ⟨ahead', cursor', looked, agrees, inside, behind⟩ :=
    look_allowed s.place stands.inside (cursor ▸ plain) (cursor ▸ allowed)
  rw [cursor] at agrees behind
  exact ⟨_, State.shift_ok.mpr ⟨ahead', cursor', looked, rfl⟩, ⟨agrees, behind, inside, stands.clean_tail ahead⟩,
    plain⟩

theorem take (stands : Stands source r ts s) (ahead : ts.Ahead l) {terminal : Terminal}
    (known : l.terminal? = some terminal) (allowed : context.Allows ts.tail) :
    ∃ s', s.take terminal context = .ok s' ∧ Stands source (r.next l) ts.tail s' := by
  obtain ⟨s', shifted, stands'⟩ := stands.shift ahead allowed
  exact ⟨s', State.take_ok.mpr ⟨(stands.agrees.terminal?_eq ahead).trans known, shifted⟩, stands'⟩

end Stands

def CarriesOver {α : Type} (source : String) (r r' : Reading) (after : Context) (f : Descent.Reader α)
    (g : Reader α) : Prop :=
  ∀ {ts ts' : Tokens} {s : State} {a : α}, Stands source r ts s → f ts = .ok (a, ts') → after.Allows ts' →
    ∃ s', g s = .ok (a, s') ∧ Stands source r' ts' s'

-- One reader follows another before an operand, and where the first starts, its context allows what is ahead.
structure Follows {α : Type} (source : String) (first after : Context) (f : Descent.Reader α)
    (g : Reader α) : Prop where
  starts : ∀ {ts : Tokens} {r : α × Tokens}, f ts = .ok r → first.Allows ts
  follows : ∀ {opened : List Bracket}, CarriesOver source (.before opened) (.beyond opened) after f g

section Lists

variable {source : String} {α : Type} {stop separator : Char} {stop' separator' : Terminal}
  {next after : Context} {f : Descent.Reader α} {g : Reader α} {ts inner : Tokens} {s : State} {xs : List α}

theorem listed_starts (marks : Delimiters stop separator stop' separator' next after)
    (item : Follows source next after f g) (listed : Descent.Listed stop separator f ts xs inner) :
    next.Allows ts := by
  cases listed with
  | none here => exact allows_of_ahead here marks.none
  | last _ _ read _ => exact item.starts read
  | more _ _ read _ _ => exact item.starts read

theorem listed_follows (marks : Delimiters stop separator stop' separator' next after)
    (item : Follows source next after f g) {opened : List Bracket}
    (listed : Descent.Listed stop separator f ts xs inner) (stands : Stands source (.before opened) ts s) :
    ∃ s' r, Listed stop' separator' next g s xs s' ∧ r.opened = opened ∧ Stands source r inner s' := by
  induction listed generalizing s with
  | none here =>
      exact ⟨s, _, .none ((stands.agrees.mark marks.stopped).mpr here), rfl, stands⟩
  | last here other read closed =>
      obtain ⟨s', read', stands'⟩ := item.follows stands read (allows_of_ahead closed marks.last)
      refine ⟨s', _, .last ?_ read' ((stands'.agrees.mark marks.stopped).mpr closed), rfl, stands'⟩
      intro same
      cases here.symm.trans ((stands.agrees.mark marks.stopped).mp same)
      exact other rfl
  | more here other read separated rest ih =>
      obtain ⟨behind, read', stands'⟩ := item.follows stands read (allows_of_ahead separated marks.more)
      obtain ⟨again, shifted, stands''⟩ := stands'.shift separated (listed_starts marks item rest)
      rw [marks.again] at stands''
      obtain ⟨s', r, listed, same, last⟩ := ih stands''
      refine ⟨s', r, .more ?_ read' ((stands'.agrees.mark marks.separated).mpr separated) shifted listed, same,
        last⟩
      intro same
      cases here.symm.trans ((stands.agrees.mark marks.stopped).mp same)
      exact other rfl

theorem delimited_follows (marks : Delimiters stop separator stop' separator' next after)
    (item : Follows source next after f g) {start : Char} {start' : Terminal} {last : Context}
    {r : Reading} {bracket : Bracket} {bound : Nat} (started : Lexeme.ofMark? start = some start')
    (opens : r.next (.punctuation start) = .before (bracket :: r.opened)) (stands : Stands source r ts s)
    (here : ts.Ahead (.punctuation start)) (listed : Descent.Listed stop separator f ts.tail xs inner)
    (short : xs.length < bound) (allowed : last.Allows inner.tail) :
    ∃ opened inner' s' r', s.take start' next = .ok opened ∧
      itemsFrom stop' separator' next g bound opened = .ok (xs, inner') ∧
      inner'.take stop' last = .ok s' ∧ Stands source ⟨bracket != .binders, false, r.opened⟩ inner.tail s' ∧
      r'.opened = bracket :: r.opened ∧ Stands source r' inner inner' := by
  obtain ⟨opened, taken, stands'⟩ := stands.take here started (listed_starts marks item listed)
  rw [opens] at stands'
  obtain ⟨inner', r', listed', same, within⟩ := listed_follows marks item listed stands'
  obtain ⟨s', closed, stands''⟩ := within.take listed.closed marks.stopped allowed
  rw [marks.closes, Reading.close, same] at stands''
  exact ⟨opened, inner', s', r', taken, itemsFrom_of_listed marks.apart listed' short, closed, stands'', same,
    within⟩

end Lists

section Forms

variable {source : String} {f : Descent.Reader Expr} {g : Reader Expr} {ts ts' : Tokens} {s : State} {e : Expr}
  {opened : List Bracket} {bound bound' : Nat}

theorem group_follows (inner : Follows source .operand .afterOperand f g) :
    CarriesOver source (.before opened) (.beyond opened) .afterOperand (Descent.group f) (group g) := by
  intro ts ts' s e stands read allowed
  obtain ⟨here, close, within, closed, rfl⟩ := Descent.group_ok.mp read
  obtain ⟨open', taken, stands'⟩ := stands.take here rfl (inner.starts within)
  obtain ⟨close', read', ends⟩ := inner.follows stands' within (allows_of_ahead closed rfl)
  obtain ⟨s', taken', stands''⟩ := ends.take closed rfl allowed
  exact ⟨s', group_ok.mpr ⟨open', close', taken, read', taken'⟩, stands''⟩

theorem block_follows {r : Reading} (visible : ∀ ts r, f ts = .ok r → ∃ l, ts.Ahead l)
    (item : Follows source .operand .afterOperand f g) (wide : bound ≤ bound')
    (stands : Stands source r ts s) (read : Descent.block f bound ts = .ok (e, ts'))
    (allowed : Context.afterOperand.Allows ts') :
    (∃ s', block g bound' s = .ok (e, s') ∧ Stands source (.beyond r.opened) ts' s') ∧
      (r.after = true → ∀ l, ts'.Ahead l → Reading.extends? (some l) = false) := by
  obtain ⟨here, items, inner, short, listed, rfl, rfl⟩ := (Descent.block_ok visible).mp read
  have opens : r.next (.punctuation '\x7b') =
      .before ((if r.after then Bracket.branch else .block) :: r.opened) := rfl
  obtain ⟨open', inner', s', r', taken, read', closed, stands', same, within⟩ :=
    delimited_follows braces item rfl opens stands here listed (Nat.lt_of_lt_of_le short wide) allowed
  constructor
  · have outer : ((if r.after then Bracket.branch else .block) != .binders) = true := by
      cases r.after <;> rfl
    rw [outer] at stands'
    exact ⟨s', block_ok.mpr ⟨items, open', inner', taken, read', closed, rfl⟩, stands'⟩
  · intro after l behind
    rw [after] at same
    exact within.branch_ends listed.closed same behind

theorem arguments_follow {args : List Expr} {inner : Tokens}
    (item : Follows source .operand .afterOperand f g) (stands : Stands source (.beyond opened) ts s)
    (here : ts.Ahead (.punctuation '(')) (listed : Descent.Listed ')' ',' f ts.tail args inner)
    (short : args.length < bound) (allowed : Context.afterOperand.Allows inner.tail) :
    ∃ s', arguments g bound s = .ok (args, s') ∧ Stands source (.beyond opened) inner.tail s' := by
  have marks : Delimiters ')' ',' .rightParen .comma .operand .afterOperand := parentheses rfl rfl rfl
  have opens : (Reading.beyond opened).next (.punctuation '(') = .before (Bracket.group :: opened) := rfl
  obtain ⟨open', inner', s', _, taken, read', closed, stands', _⟩ :=
    delimited_follows marks item rfl opens stands here listed short allowed
  exact ⟨s', arguments_ok.mpr ⟨open', inner', taken, read', closed⟩, stands'⟩

theorem otherwise_follows (inner : Follows source .operand .afterOperand f g) {no : Expr}
    (stands : Stands source (.beyond opened) ts s) (read : Descent.Otherwise f ts no ts')
    (allowed : Context.afterOperand.Allows ts') :
    ∃ s', Otherwise g s no s' ∧ Stands source (.beyond opened) ts' s' := by
  rcases read with ⟨here, read⟩ | ⟨ahead, peeked, other, rfl, rfl⟩
  · obtain ⟨next, taken, stands'⟩ := stands.take here rfl (inner.starts read)
    obtain ⟨s', read', stands''⟩ := inner.follows stands' read allowed
    exact ⟨s', .inl ⟨next, taken, read'⟩, stands''⟩
  · refine ⟨s, .inr ⟨?_, rfl, rfl⟩, stands⟩
    intro same
    have here := (stands.agrees.keyword .else_).mp same
    exact other (Except.ok.inj (peeked.symm.trans here))

theorem allows_before_otherwise {no : Expr} (read : Descent.Otherwise f ts no ts')
    (allowed : Context.afterOperand.Allows ts') : Context.afterOperand.Allows ts := by
  rcases read with ⟨here, _⟩ | ⟨_, _, _, _, rfl⟩
  · exact allows_of_ahead here rfl
  · exact allowed

def BranchMoves (source : String) (opened : List Bracket) (f : Descent.Reader Expr) (g : Reader Expr) : Prop :=
  ∀ {ts ts' : Tokens} {s : State} {e : Expr}, Stands source (.beyond opened) ts s →
    ts.Ahead (.punctuation '\x7b') → f ts = .ok (e, ts') → Context.afterOperand.Allows ts' →
      ∃ s', g s = .ok (e, s') ∧ Stands source (.beyond opened) ts' s'

theorem conditional_follows (inner : Follows source .operand .afterOperand f g)
    (branch : BranchMoves source opened f (block g bound)) :
    CarriesOver source (.before opened) (.beyond opened) .afterOperand (Descent.conditional f)
      (conditional g bound) := by
  intro ts ts' s e stands read allowed
  obtain ⟨here, test, yes, no, after, start, behind, tested, at', branched, otherwise, rfl⟩ :=
    Descent.conditional_ok.mp read
  have allowed' := allows_before_otherwise otherwise allowed
  obtain ⟨first, taken, stands'⟩ := stands.take here rfl (inner.starts tested)
  have before : Context.afterOperand.Allows after := by
    rcases at' with ⟨brace, _⟩ | ⟨keyword, _⟩
    · exact allows_of_ahead brace rfl
    · exact allows_of_ahead keyword rfl
  obtain ⟨after', tested', tests⟩ := inner.follows stands' tested before
  have yes' : ∃ behind', Branch g bound after' yes behind' ∧ Stands source (.beyond opened) behind behind' := by
    rcases at' with ⟨brace, rfl⟩ | ⟨keyword, rfl⟩
    · obtain ⟨behind', read', stands⟩ := branch tests brace branched allowed'
      exact ⟨behind', .inl ⟨(tests.agrees.mark rfl).mpr brace, read'⟩, stands⟩
    · obtain ⟨next, taken', stands⟩ := tests.take keyword rfl (inner.starts branched)
      obtain ⟨behind', read', stands⟩ := inner.follows stands branched allowed'
      exact ⟨behind', .inr ⟨next, taken', read'⟩, stands⟩
  obtain ⟨behind', branched', stands''⟩ := yes'
  obtain ⟨s', otherwise', last⟩ := otherwise_follows inner stands'' otherwise allowed
  exact ⟨s', conditional_ok.mpr ⟨test, yes, no, first, after', behind', taken, tested', branched', otherwise',
    rfl⟩, last⟩

theorem name_follows : Follows source .listItem .afterParam Descent.name param := by
  constructor
  · intro ts r read
    exact allows_of_ahead (Descent.name_ok.mp read).1 rfl
  · intro opened ts ts' s x stands read allowed
    obtain ⟨here, rfl⟩ := Descent.name_ok.mp read
    obtain ⟨s', taken, stands'⟩ := stands.take here rfl allowed
    exact ⟨s', param_ok.mpr ⟨taken, stands.agrees.text here⟩, stands'⟩

theorem binding_follows (inner : Follows source .operand .afterOperand f g) :
    Follows source .listItem .afterOperand (Descent.binding f) (binding g) := by
  constructor
  · intro ts r read
    obtain ⟨x, init, here, _⟩ := Descent.binding_ok.mp read
    exact allows_of_ahead here rfl
  · intro opened ts ts' s b stands read allowed
    obtain ⟨x, init, here, equals, given, rfl⟩ := Descent.binding_ok.mp read
    have behind : Context.afterVariable.Allows ts.tail := allows_of_ahead equals rfl
    obtain ⟨named, taken, stands'⟩ := stands.take here rfl behind
    obtain ⟨next, taken', stands''⟩ := stands'.take equals rfl (inner.starts given)
    obtain ⟨s', read', last⟩ := inner.follows stands'' given allowed
    have same : x = word s := stands.agrees.text here
    exact ⟨s', binding_ok.mpr ⟨named, next, init, taken, taken', read', by rw [same]⟩, last⟩

theorem selfName_follows {self : Option String} {head : Tokens} (stands : Stands source (.heading opened) ts s)
    (read : Descent.name? ts = .ok (self, head)) (here : head.Ahead (.punctuation '(')) :
    ∃ s', selfName s = .ok (self, s') ∧ Stands source (.heading opened) head s' := by
  rcases Descent.name?_ok.mp read with ⟨x, ahead, rfl, rfl⟩ | ⟨_, _, _, rfl, rfl⟩
  · have behind : Context.binderOpen.Allows ts.tail := allows_of_ahead here rfl
    obtain ⟨s', taken, stands'⟩ := stands.take ahead rfl behind
    have same : x = word s := stands.agrees.text ahead
    exact ⟨s', selfName_ok.mpr (.inl ⟨taken, by rw [same]⟩), stands'⟩
  · refine ⟨s, selfName_ok.mpr (.inr ⟨?_, rfl, rfl⟩), stands⟩
    rw [stands.agrees.terminal?_eq here]
    decide

theorem name?_starts {self : Option String} {head : Tokens} (read : Descent.name? ts = .ok (self, head))
    (here : head.Ahead (.punctuation '(')) : Context.binderHead.Allows ts := by
  rcases Descent.name?_ok.mp read with ⟨x, ahead, _, _⟩ | ⟨_, _, _, _, rfl⟩
  · exact allows_of_ahead ahead rfl
  · exact allows_of_ahead here rfl

theorem bound_follows {α : Type} {item : Descent.Reader α} {item' : Reader α} {after : Context} {word : Lexeme}
    {self : Option String} {xs : List α} {body : Expr} {head inner : Tokens}
    (expression : Follows source .operand .afterOperand f g)
    (marks : Delimiters ')' ',' .rightParen .comma .listItem after)
    (items : Follows source .listItem after item item') (stands : Stands source (.before opened) ts s)
    (here : ts.Ahead word) (binder : (Reading.before opened).next word = .heading opened)
    (named : Descent.name? ts.tail = .ok (self, head)) (starts : head.Ahead (.punctuation '('))
    (short : xs.length < bound) (listed : Descent.Listed ')' ',' item head.tail xs inner)
    (read : f inner.tail = .ok (body, ts')) (allowed : Context.afterOperand.Allows ts') :
    ∃ s', Bound g item' bound s self xs body s' ∧ Stands source (.beyond opened) ts' s' := by
  obtain ⟨first, shifted, stands'⟩ := stands.shift here (name?_starts named starts)
  rw [binder] at stands'
  obtain ⟨head', named', heads⟩ := selfName_follows stands' named starts
  have opens : (Reading.heading opened).next (.punctuation '(') = .before (Bracket.binders :: opened) := rfl
  obtain ⟨open', inner', last, _, taken, read', closed, bodies, _⟩ :=
    delimited_follows marks items rfl opens heads starts listed short (expression.starts read)
  obtain ⟨s', read'', stands''⟩ := expression.follows bodies read allowed
  exact ⟨s', ⟨first, head', open', inner', last, shifted, named', taken, read', closed, read''⟩, stands''⟩

theorem function_follows {word : Lexeme} (expression : Follows source .operand .afterOperand f g)
    (wide : bound ≤ bound') (stands : Stands source (.before opened) ts s) (here : ts.Ahead word)
    (binder : (Reading.before opened).next word = .heading opened)
    (read : Descent.function f bound ts = .ok (e, ts')) (allowed : Context.afterOperand.Allows ts') :
    ∃ s', function g bound' s = .ok (e, s') ∧ Stands source (.beyond opened) ts' s' := by
  obtain ⟨self, params, body, head, inner, named, starts, short, listed, last, rfl⟩ :=
    Descent.function_ok.mp read
  obtain ⟨s', bounded, stands'⟩ := bound_follows expression (parentheses rfl rfl rfl) name_follows stands here
    binder named starts (Nat.lt_of_lt_of_le short wide) listed last allowed
  exact ⟨s', function_ok.mpr ⟨self, params, body, bounded, rfl⟩, stands'⟩

theorem letForm_follows {word : Lexeme} (expression : Follows source .operand .afterOperand f g)
    (wide : bound ≤ bound') (stands : Stands source (.before opened) ts s) (here : ts.Ahead word)
    (binder : (Reading.before opened).next word = .heading opened)
    (read : Descent.letForm f bound ts = .ok (e, ts')) (allowed : Context.afterOperand.Allows ts') :
    ∃ s', letForm g bound' s = .ok (e, s') ∧ Stands source (.beyond opened) ts' s' := by
  obtain ⟨self, bindings, body, head, inner, named, starts, short, listed, last, rfl⟩ :=
    Descent.letForm_ok.mp read
  obtain ⟨s', bounded, stands'⟩ := bound_follows expression (parentheses rfl rfl rfl)
    (binding_follows expression) stands here binder named starts (Nat.lt_of_lt_of_le short wide) listed last
    allowed
  exact ⟨s', letForm_ok.mpr ⟨self, bindings, body, bounded, rfl⟩, stands'⟩

theorem leaf_follows {l : Lexeme} (stands : Stands source (.before opened) ts s) (here : ts.Ahead l)
    (ends : (Reading.before opened).next l = .beyond opened) (allowed : Context.afterOperand.Allows ts.tail) :
    ∃ s', leaf e s = .ok (e, s') ∧ Stands source (.beyond opened) ts.tail s' := by
  obtain ⟨s', shifted, stands'⟩ := stands.shift here allowed
  exact ⟨s', leaf_ok.mpr ⟨shifted, rfl⟩, ends ▸ stands'⟩

theorem atomForm_starts {r : Expr × Tokens} (read : Descent.atomForm f bound ts = .ok r) :
    Context.operand.Allows ts := by
  unfold Descent.atomForm at read
  obtain ⟨ahead, peeked, read⟩ := bind_eq_ok.mp read
  split at read
  any_goals exact allows_of_ahead peeked rfl
  all_goals cases read

theorem atomForm_follows (visible : ∀ ts r, f ts = .ok r → ∃ l, ts.Ahead l)
    (inner : Follows source .operand .afterOperand f g) (wide : bound ≤ bound')
    (branch : BranchMoves source opened f (block g bound')) :
    CarriesOver source (.before opened) (.beyond opened) .afterOperand (Descent.atomForm f bound)
      (atomForm g bound') := by
  intro ts ts' s e stands read allowed
  unfold Descent.atomForm at read
  obtain ⟨ahead, peeked, read⟩ := bind_eq_ok.mp read
  have agrees := stands.agrees
  split at read
  · cases read
  · obtain ⟨s', read', last⟩ := group_follows inner stands read allowed
    exact ⟨s', by rw [atomForm, agrees.terminal?_eq peeked]; exact read', last⟩
  · obtain ⟨s', read', last⟩ := (block_follows visible inner wide stands read allowed).1
    exact ⟨s', by rw [atomForm, agrees.terminal?_eq peeked]; exact read', last⟩
  · obtain ⟨s', read', last⟩ := conditional_follows inner branch stands read allowed
    exact ⟨s', by rw [atomForm, agrees.terminal?_eq peeked]; exact read', last⟩
  · cases read
    obtain ⟨s', read', last⟩ := leaf_follows stands peeked rfl allowed
    exact ⟨s', by rw [atomForm, agrees.terminal?_eq peeked]; exact read', last⟩
  · cases read
    obtain ⟨s', read', last⟩ := leaf_follows stands peeked rfl allowed
    exact ⟨s', by rw [atomForm, agrees.terminal?_eq peeked]; exact read', last⟩
  · obtain ⟨s', read', last⟩ := function_follows inner wide stands peeked rfl read allowed
    exact ⟨s', by rw [atomForm, agrees.terminal?_eq peeked]; exact read', last⟩
  · obtain ⟨s', read', last⟩ := function_follows inner wide stands peeked rfl read allowed
    exact ⟨s', by rw [atomForm, agrees.terminal?_eq peeked]; exact read', last⟩
  · obtain ⟨s', read', last⟩ := letForm_follows inner wide stands peeked rfl read allowed
    exact ⟨s', by rw [atomForm, agrees.terminal?_eq peeked]; exact read', last⟩
  · cases read
    have same : _ = word s := agrees.text peeked
    obtain ⟨s', read', last⟩ := leaf_follows stands peeked rfl allowed
    exact ⟨s', by rw [atomForm, agrees.terminal?_eq peeked, same]; exact read', last⟩
  · cases read
    have same : _ = Decimal.ofLiteral s.text := agrees.text peeked
    obtain ⟨s', read', last⟩ := leaf_follows stands peeked rfl allowed
    exact ⟨s', by rw [atomForm, agrees.terminal?_eq peeked, same]; exact read', last⟩
  · cases read
    have same : _ = literalText s.text := agrees.text peeked
    obtain ⟨s', read', last⟩ := leaf_follows stands peeked rfl allowed
    exact ⟨s', by rw [atomForm, agrees.terminal?_eq peeked, same]; exact read', last⟩
  · cases read

end Forms

section Expressions

variable {source : String} {bound bound' : Nat}

theorem operand_starts {ts : Tokens} {r : Expr × Tokens} (read : Descent.operand bound ts = .ok r) :
    Context.operand.Allows ts := by
  match bound with
  | 0 => cases read
  | 1 => cases read
  | bound + 2 =>
      obtain ⟨func, next, first, _⟩ := Descent.operand_ok.mp read
      exact atomForm_starts first

theorem expression_starts {ts : Tokens} {r : Expr × Tokens} (read : Descent.expression bound ts = .ok r) :
    Context.operand.Allows ts := by
  cases bound with
  | zero => cases read
  | succ bound =>
      obtain ⟨left, next, first, _⟩ := Descent.expression_ok.mp read
      exact operand_starts first

structure Matches (source : String) (bound bound' : Nat) : Prop where
  expression : Follows source .operand .afterOperand (Descent.expression bound) (expression bound')
  operand : Follows source .operand .afterOperand (Descent.operand bound) (operand bound')
  atom : Follows source .operand .afterOperand (Descent.atom bound) (atom bound')
  operators : ∀ {opened : List Bracket} (left : Expr) (floor : Nat),
    CarriesOver source (.beyond opened) (.beyond opened) .afterOperand (Descent.operators bound left floor)
      (operators bound' left floor)
  calls : ∀ {opened : List Bracket} (func : Expr),
    CarriesOver source (.beyond opened) (.beyond opened) .afterOperand (Descent.calls bound func) (calls bound' func)

theorem matches_zero : Matches source 0 bound' :=
  ⟨⟨nofun, nofun⟩, ⟨nofun, nofun⟩, ⟨nofun, nofun⟩, fun _ _ => nofun, fun _ => nofun⟩

theorem branch_follows {opened : List Bracket} (smaller : ∀ k, k < bound → Matches source k bound')
    (wide : bound ≤ bound') :
    BranchMoves source opened (Descent.expression bound) (block (expression bound') bound') := by
  intro ts ts' s e stands here read allowed
  match bound with
  | 0 => cases read
  | 1 => cases read
  | 2 => cases read
  | k + 3 =>
      -- The descent would go on with calls and operators; what is allowed behind the block starts none.
      obtain ⟨left, next, operand, operators⟩ := Descent.expression_ok.mp read
      obtain ⟨func, behind, atom, calls⟩ := Descent.operand_ok.mp operand
      have between := allows_before_calls calls (allows_before_operators operators allowed)
      have peeked : ts.peek = .ok (some (.punctuation '\x7b')) := here
      simp only [Descent.atom, Descent.atomForm, peeked, ok_bind] at atom
      obtain ⟨⟨s', read', last⟩, ends⟩ := block_follows (Descent.expression_visible k)
        (smaller k (by omega)).expression (by omega : k ≤ bound') stands atom between
      obtain ⟨ahead, peeked', _⟩ := between
      have idle : ∀ l, ahead = some l → Reading.extends? (some l) = false := by
        rintro l rfl
        exact ends rfl l peeked'
      have stopped : ahead ≠ some (.punctuation '(') := by
        rintro rfl
        cases idle _ rfl
      cases calls.symm.trans (Descent.calls_stop peeked' stopped)
      have loose : ∀ l, ahead = some l → Descent.levelAbove? 0 l = none := by
        intro l same
        cases l with
        | operator symbol => cases idle _ same
        | _ => rfl
      cases operators.symm.trans (Descent.operators_stop peeked' loose)
      exact ⟨s', read', last⟩

theorem operators_follow (smaller : Matches source bound bound') {opened : List Bracket} (left : Expr)
    (floor : Nat) :
    CarriesOver source (.beyond opened) (.beyond opened) .afterOperand (Descent.operators (bound + 1) left floor)
      (operators (bound' + 1) left floor) := by
  intro ts ts' s e stands read allowed
  rcases Descent.operators_cases read with ⟨ahead, peeked, loose, rfl, rfl⟩ | ⟨symbol, level, here, known, above⟩
  · refine ⟨s, operators_stop ?_, stands⟩
    cases ahead with
    | none =>
        obtain ⟨last, ended⟩ := stands.agrees.at_end peeked
        rw [ended]
        rfl
    | some l =>
        rw [stands.agrees.levelAbove? floor peeked]
        exact loose l rfl
  · obtain ⟨right, next, right', next', first, others, rest⟩ := (Descent.operators_go here known above).mp read
    have allowed' := allows_before_operators rest allowed
    obtain ⟨found, ahead, terminal, bears⟩ := stands.agrees.found here
    obtain ⟨again, shifted, stands'⟩ := stands.shift here (smaller.operand.starts first)
    obtain ⟨behind, first', stands''⟩ :=
      smaller.operand.follows stands' first (allows_before_operators others allowed')
    obtain ⟨behind', others', between⟩ := smaller.operators right level stands'' others allowed'
    obtain ⟨s', rest', last⟩ := smaller.operators _ floor between rest allowed
    have known' : precedence? found.terminal = some level := (Lexeme.precedence?_terminal terminal).trans known
    rw [← Lexeme.combine_terminal terminal bears] at rest'
    exact ⟨s', (operators_go ahead known' above).mpr
      ⟨again, right, behind, right', behind', shifted, first', others', rest'⟩, last⟩

theorem calls_follow (smaller : Matches source bound bound') (wide : bound ≤ bound') {opened : List Bracket}
    (func : Expr) :
    CarriesOver source (.beyond opened) (.beyond opened) .afterOperand (Descent.calls (bound + 1) func)
      (calls (bound' + 1) func) := by
  intro ts ts' s e stands read allowed
  rcases Descent.calls_cases read with ⟨ahead, peeked, other, rfl, rfl⟩ | here
  · refine ⟨s, calls_ok.mpr (.inl ⟨?_, rfl, rfl⟩), stands⟩
    intro same
    exact other (Except.ok.inj (peeked.symm.trans ((stands.agrees.mark rfl).mp same)))
  · obtain ⟨args, inner, short, listed, rest⟩ := (Descent.calls_go here).mp read
    obtain ⟨next, read', stands'⟩ := arguments_follow smaller.expression stands here listed
      (Nat.lt_of_lt_of_le short wide) (allows_before_calls rest allowed)
    obtain ⟨s', rest', last⟩ := smaller.calls _ stands' rest allowed
    exact ⟨s', calls_ok.mpr (.inr ⟨args, next, read', rest'⟩), last⟩

theorem matches_succ (smaller : ∀ k, k ≤ bound → Matches source k bound') (wide : bound ≤ bound') :
    Matches source (bound + 1) (bound' + 1) := by
  have inner := smaller bound (Nat.le_refl bound)
  refine ⟨⟨expression_starts, ?_⟩, ⟨operand_starts, ?_⟩, ⟨atomForm_starts, ?_⟩, operators_follow inner,
    calls_follow inner wide⟩
  · intro opened ts ts' s e stands read allowed
    obtain ⟨left, next, first, rest⟩ := Descent.expression_ok.mp read
    obtain ⟨next', first', stands'⟩ := inner.operand.follows stands first (allows_before_operators rest allowed)
    obtain ⟨s', rest', last⟩ := inner.operators left 0 stands' rest allowed
    exact ⟨s', expression_ok.mpr ⟨left, next', first', rest'⟩, last⟩
  · intro opened ts ts' s e stands read allowed
    obtain ⟨func, next, first, rest⟩ := Descent.operand_ok.mp read
    obtain ⟨next', first', stands'⟩ := inner.atom.follows stands first (allows_before_calls rest allowed)
    obtain ⟨s', rest', last⟩ := inner.calls func stands' rest allowed
    exact ⟨s', operand_ok.mpr ⟨func, next', first', rest'⟩, last⟩
  · intro opened ts ts' s e stands read allowed
    have branch : BranchMoves source opened (Descent.expression bound) (block (expression bound') bound') :=
      branch_follows (fun k less => smaller k (Nat.le_of_lt less)) wide
    exact atomForm_follows (Descent.expression_visible bound) inner.expression wide branch stands read allowed

theorem readers_match {bound bound' : Nat} (wide : bound ≤ bound') : Matches source bound bound' := by
  induction bound using Nat.strongRecOn generalizing bound' with
  | ind bound ih =>
      match bound, bound' with
      | 0, _ => exact matches_zero
      | bound + 1, bound' + 1 =>
          have wide : bound ≤ bound' := Nat.le_of_succ_le_succ wide
          exact matches_succ (fun k low => ih k (Nat.lt_succ_of_le low) (Nat.le_trans low wide)) wide

end Expressions

section Programs

variable {source : String}

theorem sequence_starts {bound : Nat} {ts : Tokens} {es : List Expr}
    (read : Descent.sequence bound ts = .ok es) : Context.operand.Allows ts := by
  cases bound with
  | zero => cases read
  | succ bound =>
      rcases Descent.sequence_ok.mp read with ⟨ended, _⟩ | ⟨e, behind, first, _⟩
      · exact allows_at_end ended
      · exact expression_starts first

theorem sequence_follows {bound bound' : Nat} (wide : bound ≤ bound') {ts : Tokens} {s : State} {es : List Expr}
    (stands : Stands source (.before []) ts s) (read : Descent.sequence bound ts = .ok es) :
    ∃ s', sequence bound' s = .ok (es, s') := by
  induction bound generalizing bound' ts s es with
  | zero => cases read
  | succ bound ih =>
      obtain ⟨bound', rfl⟩ : ∃ k, bound' = k + 1 := ⟨bound' - 1, by omega⟩
      have wide : bound ≤ bound' := Nat.le_of_succ_le_succ wide
      rcases Descent.sequence_ok.mp read with ⟨ended, rfl⟩ | ⟨e, behind, first, rest⟩
      · exact ⟨s, sequence_ok.mpr (.inl ⟨stands.agrees.none_iff.mpr ended, rfl, rfl⟩)⟩
      · have some : s.terminal? ≠ none := by
          intro none
          obtain ⟨l, ahead⟩ := Descent.expression_visible bound ts _ first
          cases ahead.symm.trans (stands.agrees.none_iff.mp none)
        have readers : Matches source bound bound' := readers_match wide
        have allowed : Context.afterOperand.Allows behind := by
          rcases rest with ⟨ended, _⟩ | ⟨separated, _⟩
          · exact allows_at_end ended
          · exact allows_of_ahead separated rfl
        obtain ⟨behind', first', stands'⟩ := readers.expression.follows stands first allowed
        rcases rest with ⟨ended, rfl⟩ | ⟨separated, rest, others, rfl⟩
        · have ended' := stands'.agrees.none_iff.mpr ended
          exact ⟨behind', sequence_ok.mpr (.inr ⟨e, behind', some, first', .inl ⟨ended', rfl, rfl⟩⟩)⟩
        · obtain ⟨again, taken, stands''⟩ := stands'.take separated rfl (sequence_starts others)
          obtain ⟨s', others'⟩ := ih wide stands'' others
          exact ⟨s', sequence_ok.mpr (.inr ⟨e, behind', some, first', .inr ⟨again, rest, taken, others', rfl⟩⟩)⟩

theorem stands_ofSource (plain : PlainTokens source (.ofSource source))
    (clean : (Reading.before []).branchesEnd ((Tokens.ofSource source).list.map Token.lexeme) = true)
    (allowed : Context.operand.Allows (.ofSource source)) :
    ∃ s, State.ofSource source = .ok s ∧ Stands source (.before []) (.ofSource source) s := by
  obtain ⟨ahead, cursor, looked, agrees, inside, behind⟩ :=
    look_allowed {} (Cursor.in_ofSource source) plain allowed
  exact ⟨⟨ahead, cursor, []⟩, by rw [State.ofSource, looked]; rfl, ⟨agrees, behind, inside, clean⟩,
    plain⟩

theorem parse_follows {program : Expr} (read : Descent.parse source = .ok program)
    (plain : PlainTokens source (.ofSource source))
    (clean : (Reading.before []).branchesEnd ((Tokens.ofSource source).list.map Token.lexeme) = true) :
    parse source = .ok program := by
  have tokens : (Tokens.ofSource source).list.length ≤ source.length := by
    have short := Tokens.length_ofCursor_le (.ofSource source)
    rwa [Cursor.ofSource, String.length_toList] at short
  have wide : Descent.boundFor (.ofSource source) ≤ boundFor source := by
    unfold Descent.boundFor boundFor
    omega
  unfold Descent.parse Descent.program at read
  cases made : Descent.sequence (Descent.boundFor (.ofSource source)) (.ofSource source) with
  | error e =>
      rw [made] at read
      cases read
  | ok es =>
      rw [made] at read
      cases read
      obtain ⟨s, start, stands⟩ := stands_ofSource plain clean (sequence_starts made)
      obtain ⟨s', made'⟩ := sequence_follows wide stands made
      rw [parse, Grammar.read, start, ok_bind, made']
      rfl

end Programs

end Grammar

end Trampoline

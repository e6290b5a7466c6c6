import Trampoline.Proofs.Lexemes

set_option autoImplicit false

namespace Trampoline

namespace Tokens

variable {ts ts' : Tokens}

def Ahead (ts : Tokens) (l : Lexeme) : Prop := ts.peek = .ok (some l)

theorem ahead_iff {l : Lexeme} :
    ts.Ahead l ↔ ∃ t rest, ts.list = t :: rest ∧ t.lexeme = l := by
  obtain ⟨list, ending⟩ := ts
  cases list with
  | nil => cases ending <;> simp [Ahead, peek, fault]
  | cons t rest => simp [Ahead, peek]

theorem length_tail {l : Lexeme} (ahead : ts.Ahead l) : ts.tail.list.length + 1 = ts.list.length := by
  obtain ⟨t, rest, tokens, _⟩ := ahead_iff.mp ahead
  simp [tail, tokens]

theorem isMark_iff {mark : Char} {ahead : Option Lexeme} :
    isMark mark ahead = true ↔ ahead = some (.punctuation mark) := by
  unfold isMark
  split <;> simp_all

theorem isKeyword_iff {word : Keyword} {ahead : Option Lexeme} :
    isKeyword word ahead = true ↔ ahead = some (.keyword word) := by
  unfold isKeyword
  split <;> simp_all

theorem takeMark_ok {mark : Char} :
    ts.takeMark mark = .ok ts' ↔ ts.Ahead (.punctuation mark) ∧ ts' = ts.tail := by
  simp only [takeMark, bind_eq_ok, Ahead]
  constructor
  · rintro ⟨ahead, peeked, taken⟩
    by_cases same : isMark mark ahead = true
    · rw [if_pos same] at taken
      cases taken
      exact ⟨by rw [peeked, isMark_iff.mp same], rfl⟩
    · rw [if_neg same] at taken
      cases taken
  · rintro ⟨peeked, rfl⟩
    exact ⟨_, peeked, by rw [if_pos (isMark_iff.mpr rfl)]; rfl⟩

theorem takeKeyword_ok {word : Keyword} :
    ts.takeKeyword word = .ok ts' ↔ ts.Ahead (.keyword word) ∧ ts' = ts.tail := by
  simp only [takeKeyword, bind_eq_ok, Ahead]
  constructor
  · rintro ⟨ahead, peeked, taken⟩
    by_cases same : isKeyword word ahead = true
    · rw [if_pos same] at taken
      cases taken
      exact ⟨by rw [peeked, isKeyword_iff.mp same], rfl⟩
    · rw [if_neg same] at taken
      cases taken
  · rintro ⟨peeked, rfl⟩
    exact ⟨_, peeked, by rw [if_pos (isKeyword_iff.mpr rfl)]; rfl⟩

end Tokens

namespace Descent

variable {ts ts' : Tokens}

theorem name_ok {x : String} : name ts = .ok (x, ts') ↔ ts.Ahead (.name x) ∧ ts' = ts.tail := by
  simp only [name, bind_eq_ok, Tokens.Ahead]
  constructor
  · rintro ⟨ahead, peeked, taken⟩
    split at taken
    · cases taken
      exact ⟨peeked, rfl⟩
    · cases taken
  · rintro ⟨peeked, rfl⟩
    exact ⟨_, peeked, rfl⟩

theorem name?_ok {self : Option String} :
    name? ts = .ok (self, ts') ↔
      (∃ x, ts.Ahead (.name x) ∧ self = some x ∧ ts' = ts.tail) ∨
        (∃ ahead, ts.peek = .ok ahead ∧ (∀ x, ahead ≠ some (.name x)) ∧ self = none ∧ ts' = ts) := by
  simp only [name?, bind_eq_ok, Tokens.Ahead]
  constructor
  · rintro ⟨ahead, peeked, taken⟩
    split at taken
    · rename_i x
      cases taken
      exact .inl ⟨x, peeked, rfl, rfl⟩
    · rename_i other
      cases taken
      exact .inr ⟨ahead, peeked, other, rfl, rfl⟩
  · rintro (⟨x, peeked, rfl, rfl⟩ | ⟨ahead, peeked, other, rfl, rfl⟩)
    · exact ⟨_, peeked, rfl⟩
    · refine ⟨ahead, peeked, ?_⟩
      split
      · rename_i x
        exact absurd rfl (other x)
      · rfl

section Forms

variable {f : Reader Expr} {bound : Nat} {e : Expr}

theorem binding_ok {b : Binding} :
    binding f ts = .ok (b, ts') ↔
      ∃ x init, ts.Ahead (.name x) ∧ ts.tail.Ahead (.operator "=") ∧
        f ts.tail.tail = .ok (init, ts') ∧ b = .mk x init := by
  simp only [binding, bind_eq_ok, Prod.exists, name_ok]
  constructor
  · rintro ⟨x, next, ⟨named, rfl⟩, ahead, peeked, taken⟩
    split at taken
    · obtain ⟨⟨init, rest⟩, read, made⟩ := bind_eq_ok.mp taken
      cases made
      exact ⟨x, init, named, peeked, read, rfl⟩
    · cases taken
  · rintro ⟨x, init, named, equals, read, rfl⟩
    exact ⟨x, ts.tail, ⟨named, rfl⟩, _, equals, bind_eq_ok.mpr ⟨(init, ts'), read, rfl⟩⟩

theorem group_ok :
    group f ts = .ok (e, ts') ↔
      ts.Ahead (.punctuation '(') ∧ ∃ inner, f ts.tail = .ok (e, inner) ∧
        inner.Ahead (.punctuation ')') ∧ ts' = inner.tail := by
  simp only [group, bind_eq_ok, Prod.exists, Tokens.takeMark_ok]
  constructor
  · rintro ⟨_, ⟨opened, rfl⟩, e', inner, read, _, ⟨closed, rfl⟩, made⟩
    cases made
    exact ⟨opened, inner, read, closed, rfl⟩
  · rintro ⟨opened, inner, read, closed, rfl⟩
    exact ⟨_, ⟨opened, rfl⟩, e, inner, read, _, ⟨closed, rfl⟩, rfl⟩

def BranchAt (ts ts' : Tokens) : Prop :=
  (ts.Ahead (.punctuation '\x7b') ∧ ts' = ts) ∨ (ts.Ahead (.keyword .then_) ∧ ts' = ts.tail)

def Otherwise (f : Reader Expr) (ts : Tokens) (no : Expr) (ts' : Tokens) : Prop :=
  (ts.Ahead (.keyword .else_) ∧ f ts.tail = .ok (no, ts')) ∨
    (∃ ahead, ts.peek = .ok ahead ∧ ahead ≠ some (.keyword .else_) ∧ no = .hole ∧ ts' = ts)

theorem branches_ok {test : Expr} {at' : Tokens} :
    (do
      let (yes, behind) ← f at'
      if Tokens.isKeyword .else_ (← behind.peek) then
        let (no, behind) ← f behind.tail
        return (.cond test yes no, behind)
      return (.cond test yes .hole, behind) : Except ParseError (Expr × Tokens)) = .ok (e, ts') ↔
      ∃ yes no behind, f at' = .ok (yes, behind) ∧ Otherwise f behind no ts' ∧ e = .cond test yes no := by
  simp only [bind_eq_ok, Prod.exists]
  constructor
  · rintro ⟨yes, behind, read, ahead, peeked, taken⟩
    by_cases same : Tokens.isKeyword .else_ ahead = true
    · rw [if_pos same] at taken
      obtain ⟨⟨no, last⟩, read', made⟩ := bind_eq_ok.mp taken
      cases made
      rw [Tokens.isKeyword_iff.mp same] at peeked
      exact ⟨yes, no, behind, read, .inl ⟨peeked, read'⟩, rfl⟩
    · rw [if_neg same] at taken
      cases taken
      have other : ahead ≠ some (.keyword .else_) := fun h => same (Tokens.isKeyword_iff.mpr h)
      exact ⟨yes, .hole, _, read, .inr ⟨ahead, peeked, other, rfl, rfl⟩, rfl⟩
  · rintro ⟨yes, no, behind, read, otherwise, rfl⟩
    refine ⟨yes, behind, read, ?_⟩
    rcases otherwise with ⟨ahead, read'⟩ | ⟨ahead, peeked, other, rfl, rfl⟩
    · refine ⟨_, ahead, ?_⟩
      rw [if_pos (Tokens.isKeyword_iff.mpr rfl)]
      exact bind_eq_ok.mpr ⟨(no, ts'), read', rfl⟩
    · refine ⟨ahead, peeked, ?_⟩
      rw [if_neg (fun same => other (Tokens.isKeyword_iff.mp same))]
      rfl

theorem conditional_ok :
    conditional f ts = .ok (e, ts') ↔
      ts.Ahead (.keyword .if_) ∧ ∃ test yes no after at' behind, f ts.tail = .ok (test, after) ∧
        BranchAt after at' ∧ f at' = .ok (yes, behind) ∧ Otherwise f behind no ts' ∧
        e = .cond test yes no := by
  simp only [conditional]
  rw [bind_eq_ok]
  simp only [Tokens.takeKeyword_ok]
  constructor
  · rintro ⟨_, ⟨first, rfl⟩, taken⟩
    obtain ⟨⟨test, after⟩, read, taken⟩ := bind_eq_ok.mp taken
    obtain ⟨ahead, peeked, taken⟩ := bind_eq_ok.mp taken
    by_cases same : Tokens.isMark '\x7b' ahead = true
    · rw [if_pos same] at taken
      obtain ⟨yes, no, behind, read', otherwise, rfl⟩ := branches_ok.mp taken
      rw [Tokens.isMark_iff.mp same] at peeked
      exact ⟨first, test, yes, no, after, after, behind, read, .inl ⟨peeked, rfl⟩, read', otherwise, rfl⟩
    · rw [if_neg same] at taken
      obtain ⟨at', keyword, taken⟩ := bind_eq_ok.mp taken
      obtain ⟨yes, no, behind, read', otherwise, rfl⟩ := branches_ok.mp taken
      have start := Tokens.takeKeyword_ok.mp keyword
      exact ⟨first, test, yes, no, after, at', behind, read, .inr start, read', otherwise, rfl⟩
  · rintro ⟨first, test, yes, no, after, at', behind, read, start, read', otherwise, rfl⟩
    refine ⟨_, ⟨first, rfl⟩, bind_eq_ok.mpr ⟨(test, after), read, ?_⟩⟩
    rcases start with ⟨ahead, rfl⟩ | ⟨ahead, rfl⟩
    · refine bind_eq_ok.mpr ⟨_, ahead, ?_⟩
      rw [if_pos (Tokens.isMark_iff.mpr rfl)]
      exact branches_ok.mpr ⟨yes, no, behind, read', otherwise, rfl⟩
    · refine bind_eq_ok.mpr ⟨_, ahead, ?_⟩
      rw [if_neg (by simp [Tokens.isMark])]
      refine bind_eq_ok.mpr ⟨_, Tokens.takeKeyword_ok.mpr ⟨ahead, rfl⟩, ?_⟩
      exact branches_ok.mpr ⟨yes, no, behind, read', otherwise, rfl⟩

end Forms

section Lists

variable {α : Type} {stop separator : Char} {item : Reader α} {bound : Nat}

inductive Listed (stop separator : Char) (item : Reader α) : Tokens → List α → Tokens → Prop where
  | none {ts : Tokens} : ts.Ahead (.punctuation stop) → Listed stop separator item ts [] ts
  | last {ts ts' : Tokens} {l : Lexeme} {x : α} : ts.Ahead l → l ≠ .punctuation stop →
      item ts = .ok (x, ts') → ts'.Ahead (.punctuation stop) → Listed stop separator item ts [x] ts'
  | more {ts next ts' : Tokens} {l : Lexeme} {x : α} {xs : List α} : ts.Ahead l → l ≠ .punctuation stop →
      item ts = .ok (x, next) → next.Ahead (.punctuation separator) →
        Listed stop separator item next.tail xs ts' → Listed stop separator item ts (x :: xs) ts'

theorem Listed.closed {xs : List α} (listed : Listed stop separator item ts xs ts') :
    ts'.Ahead (.punctuation stop) := by
  induction listed with
  | none here => exact here
  | last _ _ _ closed => exact closed
  | more _ _ _ _ _ ih => exact ih

theorem items_ok {xs : List α} :
    (do
      let (x, next) ← item ts
      let (rest, next) ← itemsFrom stop separator item bound false next
      return (x :: rest, next)) = .ok (xs, ts') ↔
      ∃ x next rest, item ts = .ok (x, next) ∧
        itemsFrom stop separator item bound false next = .ok (rest, ts') ∧ xs = x :: rest := by
  simp only [bind_eq_ok, Prod.exists]
  constructor
  · rintro ⟨x, next, read, rest, last, read', made⟩
    cases made
    exact ⟨x, next, rest, read, read', rfl⟩
  · rintro ⟨x, next, rest, read, read', rfl⟩
    exact ⟨x, next, read, rest, ts', read', rfl⟩

section Steps

variable {l : Lexeme} {xs : List α}

theorem itemsFrom_stop {first : Bool} (here : ts.Ahead (.punctuation stop)) :
    itemsFrom stop separator item (bound + 1) first ts = .ok (xs, ts') ↔ xs = [] ∧ ts' = ts := by
  have peeked : ts.peek = .ok (some (.punctuation stop)) := here
  have inside : Tokens.isMark stop (some (.punctuation stop)) = true := Tokens.isMark_iff.mpr rfl
  simp only [itemsFrom, peeked, ok_bind, if_pos inside]
  constructor
  · intro made
    cases made
    exact ⟨rfl, rfl⟩
  · rintro ⟨rfl, rfl⟩
    rfl

theorem itemsFrom_visible {first : Bool} (closed : ts'.Ahead (.punctuation stop))
    (read : itemsFrom stop separator item (bound + 1) first ts = .ok (xs, ts')) : ∃ l, ts.Ahead l := by
  rw [itemsFrom] at read
  obtain ⟨ahead, peeked, read⟩ := bind_eq_ok.mp read
  cases ahead with
  | none =>
      cases read
      cases peeked.symm.trans closed
  | some l => exact ⟨l, peeked⟩

theorem itemsFrom_first (here : ts.Ahead l) (other : l ≠ .punctuation stop) :
    itemsFrom stop separator item (bound + 1) true ts = .ok (xs, ts') ↔
      ∃ x next rest, item ts = .ok (x, next) ∧
        itemsFrom stop separator item bound false next = .ok (rest, ts') ∧ xs = x :: rest := by
  have peeked : ts.peek = .ok (some l) := here
  have inside : ¬ Tokens.isMark stop (some l) = true := by
    intro same
    exact other (Option.some.inj (Tokens.isMark_iff.mp same))
  simp only [itemsFrom, peeked, ok_bind, if_neg inside, if_true, pure_bind]
  exact items_ok

theorem itemsFrom_separator (here : ts.Ahead l) (other : l ≠ .punctuation stop)
    (read : itemsFrom stop separator item (bound + 1) false ts = .ok (xs, ts')) :
    l = .punctuation separator ∧
      (ts.tail.Ahead (.punctuation stop) ∨ ∃ r, item ts.tail = .ok r) := by
  have peeked : ts.peek = .ok (some l) := here
  have inside : ¬ Tokens.isMark stop (some l) = true := by
    intro same
    exact other (Option.some.inj (Tokens.isMark_iff.mp same))
  simp only [itemsFrom, peeked, ok_bind, if_neg inside] at read
  obtain ⟨tail, taken, read⟩ := bind_eq_ok.mp read
  obtain ⟨separated, rfl⟩ := Tokens.takeMark_ok.mp taken
  refine ⟨Option.some.inj (Except.ok.inj (peeked.symm.trans separated)), ?_⟩
  obtain ⟨ahead, peeked', read⟩ := bind_eq_ok.mp read
  by_cases same : Tokens.isMark stop ahead = true
  · exact .inl (by rw [Tokens.Ahead, peeked', Tokens.isMark_iff.mp same])
  · rw [if_neg same] at read
    obtain ⟨x, _, _, read, _⟩ := items_ok.mp read
    exact .inr ⟨_, read⟩

theorem itemsFrom_separated (here : ts.Ahead (.punctuation separator)) (apart : separator ≠ stop)
    (behind : ts.tail.Ahead l) :
    itemsFrom stop separator item (bound + 1) false ts = itemsFrom stop separator item (bound + 1) true ts.tail := by
  have peeked : ts.peek = .ok (some (.punctuation separator)) := here
  have peeked' : ts.tail.peek = .ok (some l) := behind
  have taken : ts.takeMark separator = .ok ts.tail := Tokens.takeMark_ok.mpr ⟨here, rfl⟩
  have inside : ¬ Tokens.isMark stop (some (.punctuation separator)) = true := by
    intro same
    cases Tokens.isMark_iff.mp same
    exact apart rfl
  by_cases same : Tokens.isMark stop (some l) = true
  · simp [itemsFrom, peeked, peeked', taken, ok_bind, inside, same]
  · simp [itemsFrom, peeked, peeked', taken, ok_bind, inside, same]

end Steps

theorem listed_of_itemsFrom {xs : List α} (visible : ∀ ts r, item ts = .ok r → ∃ l, ts.Ahead l)
    (read : itemsFrom stop separator item bound true ts = .ok (xs, ts')) (apart : separator ≠ stop)
    (closed : ts'.Ahead (.punctuation stop)) : Listed stop separator item ts xs ts' ∧ xs.length < bound := by
  induction bound generalizing ts xs with
  | zero => cases read
  | succ bound ih =>
      obtain ⟨l, here⟩ := itemsFrom_visible closed read
      by_cases stopped : l = .punctuation stop
      · subst stopped
        obtain ⟨rfl, rfl⟩ := (itemsFrom_stop here).mp read
        exact ⟨.none here, Nat.succ_pos bound⟩
      · obtain ⟨x, next, rest, first, others, rfl⟩ := (itemsFrom_first here stopped).mp read
        cases bound with
        | zero => cases others
        | succ bound =>
            obtain ⟨l', here'⟩ := itemsFrom_visible closed others
            by_cases stopped' : l' = .punctuation stop
            · subst stopped'
              obtain ⟨rfl, rfl⟩ := (itemsFrom_stop here').mp others
              exact ⟨.last here stopped first closed, by simp⟩
            · obtain ⟨rfl, tail⟩ := itemsFrom_separator here' stopped' others
              obtain ⟨l'', behind⟩ : ∃ l, next.tail.Ahead l := by
                rcases tail with ended | ⟨r, again⟩
                · exact ⟨_, ended⟩
                · exact visible _ r again
              rw [itemsFrom_separated here' apart behind] at others
              obtain ⟨listed, short⟩ := ih others
              exact ⟨.more here stopped first here' listed, by simp; omega⟩

theorem itemsFrom_of_listed {xs : List α} (apart : separator ≠ stop)
    (listed : Listed stop separator item ts xs ts') (enough : xs.length < bound) :
    itemsFrom stop separator item bound true ts = .ok (xs, ts') := by
  induction listed generalizing bound with
  | none here =>
      obtain ⟨bound, rfl⟩ : ∃ k, bound = k + 1 := ⟨bound - 1, by omega⟩
      exact (itemsFrom_stop here).mpr ⟨rfl, rfl⟩
  | last here other read closed =>
      obtain ⟨bound, rfl⟩ : ∃ k, bound = k + 2 := ⟨bound - 2, by simp at enough; omega⟩
      exact (itemsFrom_first here other).mpr ⟨_, _, [], read, (itemsFrom_stop closed).mpr ⟨rfl, rfl⟩, rfl⟩
  | @more _ _ _ _ _ xs here other read separated rest ih =>
      obtain ⟨bound, rfl⟩ : ∃ k, bound = k + 2 := ⟨bound - 2, by simp at enough; omega⟩
      have shorter : xs.length < bound + 1 := by simpa using enough
      have tail := ih shorter
      refine (itemsFrom_first here other).mpr ⟨_, _, _, read, ?_, rfl⟩
      cases rest with
      | none behind => rw [itemsFrom_separated separated apart behind, tail]
      | last behind => rw [itemsFrom_separated separated apart behind, tail]
      | more behind => rw [itemsFrom_separated separated apart behind, tail]

theorem delimited_ok {start : Char} {xs : List α} (visible : ∀ ts r, item ts = .ok r → ∃ l, ts.Ahead l)
    (apart : separator ≠ stop) :
    delimited stop separator item start bound ts = .ok (xs, ts') ↔
      ts.Ahead (.punctuation start) ∧ xs.length < bound ∧
        ∃ inner, Listed stop separator item ts.tail xs inner ∧ ts' = inner.tail := by
  simp only [delimited, bind_eq_ok, Prod.exists, Tokens.takeMark_ok]
  constructor
  · rintro ⟨_, ⟨opened, rfl⟩, items, inner, read, _, ⟨closed, rfl⟩, made⟩
    cases made
    obtain ⟨listed, short⟩ := listed_of_itemsFrom visible read apart closed
    exact ⟨opened, short, inner, listed, rfl⟩
  · rintro ⟨opened, short, inner, listed, rfl⟩
    exact ⟨_, ⟨opened, rfl⟩, xs, inner, itemsFrom_of_listed apart listed short, _, ⟨listed.closed, rfl⟩, rfl⟩

end Lists

section Binders

variable {f : Reader Expr} {bound : Nat} {e : Expr}

theorem name_visible (ts : Tokens) (r : String × Tokens) (read : name ts = .ok r) : ∃ l, ts.Ahead l :=
  ⟨_, (name_ok.mp read).1⟩

theorem binding_visible (ts : Tokens) (r : Binding × Tokens) (read : binding f ts = .ok r) :
    ∃ l, ts.Ahead l := by
  obtain ⟨x, _, ahead, _⟩ := binding_ok.mp read
  exact ⟨_, ahead⟩

theorem block_ok (visible : ∀ ts r, f ts = .ok r → ∃ l, ts.Ahead l) :
    block f bound ts = .ok (e, ts') ↔
      ts.Ahead (.punctuation '\x7b') ∧ ∃ items inner, items.length < bound ∧
        Listed '\x7d' ';' f ts.tail items inner ∧ e = .block items ∧ ts' = inner.tail := by
  simp only [block, bind_eq_ok, Prod.exists, delimited_ok visible (by decide : ';' ≠ '\x7d')]
  constructor
  · rintro ⟨items, _, ⟨opened, short, inner, listed, rfl⟩, made⟩
    cases made
    exact ⟨opened, items, inner, short, listed, rfl, rfl⟩
  · rintro ⟨opened, items, inner, short, listed, rfl, rfl⟩
    exact ⟨items, _, ⟨opened, short, inner, listed, rfl⟩, rfl⟩

theorem function_ok :
    function f bound ts = .ok (e, ts') ↔
      ∃ self params body head inner, name? ts.tail = .ok (self, head) ∧ head.Ahead (.punctuation '(') ∧
        params.length < bound ∧ Listed ')' ',' name head.tail params inner ∧
        f inner.tail = .ok (body, ts') ∧ e = .lambda params body self := by
  simp only [function, bind_eq_ok, Prod.exists, delimited_ok name_visible (by decide : ',' ≠ ')')]
  constructor
  · rintro ⟨self, head, named, params, _, ⟨opened, short, inner, listed, rfl⟩, body, _, read, made⟩
    cases made
    exact ⟨self, params, body, head, inner, named, opened, short, listed, read, rfl⟩
  · rintro ⟨self, params, body, head, inner, named, opened, short, listed, read, rfl⟩
    exact ⟨self, head, named, params, _, ⟨opened, short, inner, listed, rfl⟩, body, ts', read, rfl⟩

def letExpr (self : Option String) (bindings : List Binding) (body : Expr) : Expr :=
  match self with
  | some x => .namedLet x bindings body
  | none => .letIn bindings body

theorem letForm_ok :
    letForm f bound ts = .ok (e, ts') ↔
      ∃ self bindings body head inner, name? ts.tail = .ok (self, head) ∧ head.Ahead (.punctuation '(') ∧
        bindings.length < bound ∧ Listed ')' ',' (binding f) head.tail bindings inner ∧
        f inner.tail = .ok (body, ts') ∧ e = letExpr self bindings body := by
  simp only [letForm, bind_eq_ok, Prod.exists, delimited_ok binding_visible (by decide : ',' ≠ ')')]
  constructor
  · rintro ⟨self, head, named, bindings, _, ⟨opened, short, inner, listed, rfl⟩, body, _, read, made⟩
    cases self with
    | none =>
        cases made
        exact ⟨none, bindings, body, head, inner, named, opened, short, listed, read, rfl⟩
    | some x =>
        cases made
        exact ⟨some x, bindings, body, head, inner, named, opened, short, listed, read, rfl⟩
  · rintro ⟨self, bindings, body, head, inner, named, opened, short, listed, read, rfl⟩
    refine ⟨self, head, named, bindings, _, ⟨opened, short, inner, listed, rfl⟩, body, ts', read, ?_⟩
    cases self <;> rfl

end Binders

section Expressions

variable {bound : Nat} {e : Expr}

theorem expression_ok :
    expression (bound + 1) ts = .ok (e, ts') ↔
      ∃ left next, operand bound ts = .ok (left, next) ∧ operators bound left 0 next = .ok (e, ts') := by
  simp only [expression, bind_eq_ok, Prod.exists]

theorem operand_ok :
    operand (bound + 1) ts = .ok (e, ts') ↔
      ∃ func next, atom bound ts = .ok (func, next) ∧ calls bound func next = .ok (e, ts') := by
  simp only [operand, bind_eq_ok, Prod.exists]

theorem atom_visible {r : Expr × Tokens} (read : atom bound ts = .ok r) : ∃ l, ts.Ahead l := by
  cases bound with
  | zero => cases read
  | succ bound =>
      simp only [atom, atomForm] at read
      obtain ⟨ahead, peeked, read⟩ := bind_eq_ok.mp read
      cases ahead with
      | none => cases read
      | some l => exact ⟨l, peeked⟩

theorem operand_visible {r : Expr × Tokens} (read : operand bound ts = .ok r) : ∃ l, ts.Ahead l := by
  cases bound with
  | zero => cases read
  | succ bound =>
      obtain ⟨func, next, first, _⟩ := operand_ok.mp read
      exact atom_visible first

theorem expression_visible (bound : Nat) (ts : Tokens) (r : Expr × Tokens)
    (read : expression bound ts = .ok r) : ∃ l, ts.Ahead l := by
  cases bound with
  | zero => cases read
  | succ bound =>
      obtain ⟨left, next, first, _⟩ := expression_ok.mp read
      exact operand_visible first

def levelAbove? (floor : Nat) : Lexeme → Option Nat
  | .operator symbol => (precedence? symbol).filter (floor < ·)
  | _ => none

theorem operators_stop {left : Expr} {floor : Nat} {ahead : Option Lexeme} (peeked : ts.peek = .ok ahead)
    (loose : ∀ l, ahead = some l → levelAbove? floor l = none) :
    operators (bound + 1) left floor ts = .ok (left, ts) := by
  simp only [operators, peeked, ok_bind]
  cases ahead with
  | none => rfl
  | some l =>
      cases l with
      | operator symbol =>
          have below := loose _ rfl
          cases found : precedence? symbol with
          | none =>
              simp only [found]
              rfl
          | some level =>
              have low : ¬ floor < level := by simpa [levelAbove?, found, Option.filter] using below
              simp only [found, if_neg low]
              rfl
      | _ => rfl

theorem operators_cases {left : Expr} {floor : Nat} (read : operators (bound + 1) left floor ts = .ok (e, ts')) :
    (∃ ahead, ts.peek = .ok ahead ∧ (∀ l, ahead = some l → levelAbove? floor l = none) ∧
      e = left ∧ ts' = ts) ∨
    ∃ symbol level, ts.Ahead (.operator symbol) ∧ precedence? symbol = some level ∧ floor < level := by
  obtain ⟨ahead, peeked⟩ : ∃ ahead, ts.peek = .ok ahead := by
    simp only [operators] at read
    obtain ⟨ahead, peeked, _⟩ := bind_eq_ok.mp read
    exact ⟨ahead, peeked⟩
  by_cases loose : ∀ l, ahead = some l → levelAbove? floor l = none
  · cases read.symm.trans (operators_stop peeked loose)
    exact .inl ⟨ahead, peeked, loose, rfl, rfl⟩
  · right
    simp only [Classical.not_forall] at loose
    obtain ⟨l, rfl, tight⟩ := loose
    cases l with
    | operator symbol =>
        obtain ⟨level, found⟩ := Option.ne_none_iff_exists'.mp tight
        obtain ⟨found, above⟩ := Option.filter_eq_some_iff.mp found
        exact ⟨symbol, level, peeked, found, by simpa using above⟩
    | _ => exact absurd rfl tight

theorem operators_go {left : Expr} {floor level : Nat} {symbol : String}
    (ahead : ts.Ahead (.operator symbol)) (found : precedence? symbol = some level) (above : floor < level) :
    operators (bound + 1) left floor ts = .ok (e, ts') ↔
      ∃ right next right' next', operand bound ts.tail = .ok (right, next) ∧
        operators bound right level next = .ok (right', next') ∧
        operators bound (combine symbol left right') floor next' = .ok (e, ts') := by
  have peeked : ts.peek = .ok (some (.operator symbol)) := ahead
  simp only [operators, peeked, ok_bind, found, if_pos above, bind_eq_ok, Prod.exists]
  constructor
  · rintro ⟨right, next, read, right', next', read', rest⟩
    exact ⟨right, next, right', next', read, read', rest⟩
  · rintro ⟨right, next, right', next', read, read', rest⟩
    exact ⟨right, next, read, right', next', read', rest⟩

theorem calls_stop {func : Expr} {ahead : Option Lexeme} (peeked : ts.peek = .ok ahead)
    (other : ahead ≠ some (.punctuation '(')) : calls (bound + 1) func ts = .ok (func, ts) := by
  have outside : ¬ Tokens.isMark '(' ahead = true := fun same => other (Tokens.isMark_iff.mp same)
  simp only [calls, peeked, ok_bind, if_neg outside]
  rfl

theorem calls_cases {func : Expr} (read : calls (bound + 1) func ts = .ok (e, ts')) :
    (∃ ahead, ts.peek = .ok ahead ∧ ahead ≠ some (.punctuation '(') ∧ e = func ∧ ts' = ts) ∨
      ts.Ahead (.punctuation '(') := by
  obtain ⟨ahead, peeked⟩ : ∃ ahead, ts.peek = .ok ahead := by
    simp only [calls] at read
    obtain ⟨ahead, peeked, _⟩ := bind_eq_ok.mp read
    exact ⟨ahead, peeked⟩
  by_cases other : ahead = some (.punctuation '(')
  · subst other
    exact .inr peeked
  · cases read.symm.trans (calls_stop peeked other)
    exact .inl ⟨ahead, peeked, other, rfl, rfl⟩

theorem calls_go {func : Expr} (ahead : ts.Ahead (.punctuation '(')) :
    calls (bound + 1) func ts = .ok (e, ts') ↔
      ∃ args inner, args.length < bound ∧ Listed ')' ',' (expression bound) ts.tail args inner ∧
        calls bound (.call func args) inner.tail = .ok (e, ts') := by
  have peeked : ts.peek = .ok (some (.punctuation '(')) := ahead
  have inside : Tokens.isMark '(' (some (.punctuation '(')) = true := rfl
  simp only [calls, peeked, ok_bind, if_pos inside, bind_eq_ok, Prod.exists,
    delimited_ok (expression_visible bound) (by decide : ',' ≠ ')')]
  constructor
  · rintro ⟨args, _, ⟨_, short, inner, listed, rfl⟩, rest⟩
    exact ⟨args, inner, short, listed, rest⟩
  · rintro ⟨args, inner, short, listed, rest⟩
    exact ⟨args, _, ⟨ahead, short, inner, listed, rfl⟩, rest⟩

theorem sequence_ok {es : List Expr} :
    sequence (bound + 1) ts = .ok es ↔
      (ts.peek = .ok none ∧ es = []) ∨
        ∃ e behind, expression bound ts = .ok (e, behind) ∧
          ((behind.peek = .ok none ∧ es = [e]) ∨
            (behind.Ahead (.punctuation ';') ∧ ∃ rest, sequence bound behind.tail = .ok rest ∧ es = e :: rest)) := by
  rw [sequence, bind_eq_ok]
  constructor
  · rintro ⟨ahead, peeked, read⟩
    cases ahead with
    | none =>
        cases read
        exact .inl ⟨peeked, rfl⟩
    | some l =>
        rw [if_neg (by simp)] at read
        obtain ⟨⟨e, behind⟩, first, read⟩ := bind_eq_ok.mp read
        refine .inr ⟨e, behind, first, ?_⟩
        obtain ⟨ahead, peeked', read⟩ := bind_eq_ok.mp read
        cases ahead with
        | none =>
            cases read
            exact .inl ⟨peeked', rfl⟩
        | some l' =>
            rw [if_neg (by simp)] at read
            obtain ⟨again, taken, read⟩ := bind_eq_ok.mp read
            obtain ⟨rest, others, made⟩ := bind_eq_ok.mp read
            obtain ⟨separated, rfl⟩ := Tokens.takeMark_ok.mp taken
            cases made
            exact .inr ⟨separated, rest, others, rfl⟩
  · rintro (⟨ended, rfl⟩ | ⟨e, behind, first, read⟩)
    · exact ⟨none, ended, rfl⟩
    · obtain ⟨l, ahead⟩ := expression_visible bound ts _ first
      refine ⟨some l, ahead, ?_⟩
      rw [if_neg (by simp)]
      refine bind_eq_ok.mpr ⟨(e, behind), first, bind_eq_ok.mpr ?_⟩
      rcases read with ⟨ended, rfl⟩ | ⟨separated, rest, others, rfl⟩
      · exact ⟨none, ended, rfl⟩
      · refine ⟨_, separated, ?_⟩
        rw [if_neg (by simp)]
        refine bind_eq_ok.mpr ⟨behind.tail, Tokens.takeMark_ok.mpr ⟨separated, rfl⟩, ?_⟩
        exact bind_eq_ok.mpr ⟨rest, others, rfl⟩

end Expressions

section Programs

variable {source : String}

theorem sequence_of_parse {program : Expr} (accepted : parse source = .ok program) :
    ∃ es, program = .prog es ∧ sequence (boundFor (.ofSource source)) (.ofSource source) = .ok es := by
  rw [parse, Descent.program] at accepted
  cases read : sequence (boundFor (.ofSource source)) (.ofSource source) with
  | error e =>
      rw [read] at accepted
      cases accepted
  | ok es =>
      rw [read] at accepted
      cases accepted
      exact ⟨es, rfl, rfl⟩

theorem sequence_of_refused {e : ParseError} (refused : parse source = .error e) :
    sequence (boundFor (.ofSource source)) (.ofSource source) = .error e := by
  rw [parse, program] at refused
  cases read : sequence (boundFor (.ofSource source)) (.ofSource source) with
  | error e' =>
      rw [read] at refused
      cases refused
      rfl
  | ok es =>
      rw [read] at refused
      cases refused

end Programs

end Descent

end Trampoline

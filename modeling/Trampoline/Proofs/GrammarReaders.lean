import Trampoline.Proofs.Readers

set_option autoImplicit false

namespace Trampoline.Grammar

theorem unexpected_ne {α : Type} (ahead : Lookahead) (a : α) : unexpected ahead ≠ .ok a := by
  cases ahead <;> simp [unexpected, fault]

theorem look_ok {context : Context} {cursor cursor' : Cursor} {last : Position} {ahead : Lookahead} :
    look context cursor last = .ok (ahead, cursor') ↔
      (cursor.skipBlanks.rest = [] ∧ ahead = .ended last ∧ cursor' = cursor.skipBlanks) ∨
        ∃ terminal slice, context.recognise? cursor.skipBlanks.rest = some (terminal, slice) ∧
          ahead = .terminal ⟨terminal, slice, cursor.skipBlanks.pos⟩ ∧ cursor' = cursor.skipBlanks.skip slice := by
  cases front : cursor.skipBlanks.rest with
  | nil =>
      have nothing {terminal : Terminal} {slice : List Char} : context.recognise? [] ≠ some (terminal, slice) :=
        fun found => (recognised found).ne_nil (List.prefix_nil.mp (recognised found).isPrefix)
      simp only [look, front, Except.ok.injEq, Prod.mk.injEq]
      constructor
      · rintro ⟨rfl, rfl⟩
        exact .inl ⟨trivial, rfl, rfl⟩
      · rintro (⟨_, rfl, rfl⟩ | ⟨_, _, found, _⟩)
        · exact ⟨rfl, rfl⟩
        · exact absurd found nothing
  | cons c cs =>
      cases found : context.recognise? (c :: cs) with
      | some one =>
          simp only [look, front, found, Except.ok.injEq, Prod.mk.injEq, Option.some.injEq]
          constructor
          · rintro ⟨rfl, rfl⟩
            exact .inr ⟨one.1, one.2, rfl, rfl, rfl⟩
          · rintro (⟨⟨⟩, _⟩ | ⟨_, _, rfl, rfl, rfl⟩)
            exact ⟨rfl, rfl⟩
      | none =>
          constructor
          · intro looked
            simp only [look, front, found] at looked
            cases known : anywhere? (c :: cs) with
            | some other =>
                simp only [known] at looked
                exact absurd looked (unexpected_ne _ _)
            | none =>
                simp only [known] at looked
                cases looked
          · rintro (⟨⟨⟩, _⟩ | ⟨_, _, ⟨⟩, _⟩)

namespace State

variable {s s' : State} {context : Context} {terminal : Terminal}

def passed (s : State) : List Located :=
  match s.ahead with
  | .terminal found => found :: s.taken
  | .ended _ => s.taken

theorem shift_ok :
    s.shift context = .ok s' ↔
      ∃ ahead cursor, look context s.cursor s.place = .ok (ahead, cursor) ∧ s' = ⟨ahead, cursor, s.passed⟩ := by
  have made : s.shift context =
      (look context s.cursor s.place).map fun found => ⟨found.1, found.2, s.passed⟩ := by
    unfold shift passed
    cases look context s.cursor s.place <;> cases s.ahead <;> rfl
  rw [made]
  cases look context s.cursor s.place with
  | error e => simp [Except.map]
  | ok found =>
      constructor
      · intro same
        cases same
        exact ⟨found.1, found.2, rfl, rfl⟩
      · rintro ⟨ahead, cursor, same, rfl⟩
        cases same
        rfl

theorem take_ok :
    s.take terminal context = .ok s' ↔ s.terminal? = some terminal ∧ s.shift context = .ok s' := by
  unfold take
  by_cases same : s.terminal? = some terminal
  · simp [same]
  · rw [if_neg same]
    constructor
    · intro made
      exact absurd made (unexpected_ne _ _)
    · rintro ⟨here, _⟩
      exact absurd here same

end State

variable {s s' : State}

section Lists

variable {α : Type} {stop separator : Terminal} {next : Context} {item : Reader α} {bound : Nat}

inductive Listed (stop separator : Terminal) (next : Context) (item : Reader α) :
    State → List α → State → Prop where
  | none {s : State} : s.terminal? = some stop → Listed stop separator next item s [] s
  | last {s s' : State} {x : α} : s.terminal? ≠ some stop → item s = .ok (x, s') →
      s'.terminal? = some stop → Listed stop separator next item s [x] s'
  | more {s behind again s' : State} {x : α} {xs : List α} : s.terminal? ≠ some stop →
      item s = .ok (x, behind) → behind.terminal? = some separator → behind.shift next = .ok again →
        Listed stop separator next item again xs s' → Listed stop separator next item s (x :: xs) s'

theorem listed_of_itemsFrom {xs : List α}
    (read : itemsFrom stop separator next item bound s = .ok (xs, s')) :
    Listed stop separator next item s xs s' := by
  induction bound generalizing s xs with
  | zero => cases read
  | succ bound ih =>
      rw [itemsFrom] at read
      by_cases ended : s.terminal? = some stop
      · rw [if_pos ended] at read
        cases read
        exact .none ended
      · rw [if_neg ended] at read
        obtain ⟨⟨x, behind⟩, first, read⟩ := bind_eq_ok.mp read
        dsimp only at read
        by_cases closed : behind.terminal? = some stop
        · rw [if_pos closed] at read
          cases read
          exact .last ended first closed
        · rw [if_neg closed] at read
          obtain ⟨again, taken, read⟩ := bind_eq_ok.mp read
          obtain ⟨⟨rest, last⟩, others, made⟩ := bind_eq_ok.mp read
          cases made
          obtain ⟨separated, shifted⟩ := State.take_ok.mp taken
          exact .more ended first separated shifted (ih others)

theorem itemsFrom_of_listed {xs : List α} (apart : separator ≠ stop)
    (listed : Listed stop separator next item s xs s') (enough : xs.length < bound) :
    itemsFrom stop separator next item bound s = .ok (xs, s') := by
  induction listed generalizing bound with
  | none ended =>
      obtain ⟨bound, rfl⟩ : ∃ k, bound = k + 1 := ⟨bound - 1, by omega⟩
      rw [itemsFrom, if_pos ended]
      rfl
  | last ended first closed =>
      obtain ⟨bound, rfl⟩ : ∃ k, bound = k + 1 := ⟨bound - 1, by omega⟩
      rw [itemsFrom, if_neg ended, first, ok_bind]
      dsimp only
      rw [if_pos closed]
      rfl
  | @more _ behind _ _ _ xs ended first separated shifted _ ih =>
      obtain ⟨bound, rfl⟩ : ∃ k, bound = k + 1 := ⟨bound - 1, by omega⟩
      have shorter : xs.length < bound := by simpa using enough
      have closed : ¬ behind.terminal? = some stop := by
        rw [separated]
        exact fun same => apart (Option.some.inj same)
      rw [itemsFrom, if_neg ended, first, ok_bind]
      dsimp only
      rw [if_neg closed, State.take_ok.mpr ⟨separated, shifted⟩, ok_bind, ih shorter]
      rfl

end Lists

section Forms

variable {f : Reader Expr} {bound : Nat} {e : Expr}

theorem arguments_ok {args : List Expr} :
    arguments f bound s = .ok (args, s') ↔
      ∃ opened inner, s.take .leftParen .operand = .ok opened ∧
        itemsFrom .rightParen .comma .operand f bound opened = .ok (args, inner) ∧
        inner.take .rightParen .afterOperand = .ok s' := by
  simp only [arguments, bind_eq_ok, Prod.exists]
  constructor
  · rintro ⟨opened, first, items, inner, read, closed, last, made⟩
    cases made
    exact ⟨opened, inner, first, read, last⟩
  · rintro ⟨opened, inner, first, read, last⟩
    exact ⟨opened, first, args, inner, read, s', last, rfl⟩

theorem block_ok :
    block f bound s = .ok (e, s') ↔
      ∃ items opened inner, s.take .leftBrace .operand = .ok opened ∧
        itemsFrom .rightBrace .semicolon .operand f bound opened = .ok (items, inner) ∧
        inner.take .rightBrace .afterOperand = .ok s' ∧ e = .block items := by
  simp only [block, bind_eq_ok, Prod.exists]
  constructor
  · rintro ⟨opened, first, items, inner, read, closed, last, made⟩
    cases made
    exact ⟨items, opened, inner, first, read, last, rfl⟩
  · rintro ⟨items, opened, inner, first, read, last, rfl⟩
    exact ⟨opened, first, items, inner, read, s', last, rfl⟩

theorem group_ok :
    group f s = .ok (e, s') ↔
      ∃ opened inner, s.take .leftParen .operand = .ok opened ∧ f opened = .ok (e, inner) ∧
        inner.take .rightParen .afterOperand = .ok s' := by
  simp only [group, bind_eq_ok, Prod.exists]
  constructor
  · rintro ⟨opened, first, e', inner, read, closed, last, made⟩
    cases made
    exact ⟨opened, inner, first, read, last⟩
  · rintro ⟨opened, inner, first, read, last⟩
    exact ⟨opened, first, e, inner, read, s', last, rfl⟩

def Branch (f : Reader Expr) (bound : Nat) (s : State) (yes : Expr) (s' : State) : Prop :=
  (s.terminal? = some .leftBrace ∧ block f bound s = .ok (yes, s')) ∨
    (∃ next, s.take .then_ .operand = .ok next ∧ f next = .ok (yes, s'))

def Otherwise (f : Reader Expr) (s : State) (no : Expr) (s' : State) : Prop :=
  (∃ next, s.take .else_ .operand = .ok next ∧ f next = .ok (no, s')) ∨
    (s.terminal? ≠ some .else_ ∧ no = .hole ∧ s' = s)

theorem alternative_ok : alternative f s = .ok (e, s') ↔ Otherwise f s e s' := by
  unfold alternative Otherwise
  by_cases here : s.terminal? = some .else_
  · simp [here, State.take_ok, bind_eq_ok]
  · rw [if_neg here]
    constructor
    · intro made
      cases made
      exact .inr ⟨here, rfl, rfl⟩
    · rintro (⟨next, taken, _⟩ | ⟨_, rfl, rfl⟩)
      · exact absurd (State.take_ok.mp taken).1 here
      · rfl

theorem branches_ok {test : Expr} {branch : Except ParseError (Expr × State)} :
    (do
      let (yes, behind) ← branch
      let (no, behind) ← alternative f behind
      return (.cond test yes no, behind) : Except ParseError (Expr × State)) = .ok (e, s') ↔
      ∃ yes no behind, branch = .ok (yes, behind) ∧ Otherwise f behind no s' ∧ e = .cond test yes no := by
  simp only [bind_eq_ok, Prod.exists, alternative_ok]
  constructor
  · rintro ⟨yes, behind, read, no, last, otherwise, made⟩
    cases made
    exact ⟨yes, no, behind, read, otherwise, rfl⟩
  · rintro ⟨yes, no, behind, read, otherwise, rfl⟩
    exact ⟨yes, behind, read, no, s', otherwise, rfl⟩

theorem conditional_ok :
    conditional f bound s = .ok (e, s') ↔
      ∃ test yes no first after behind, s.take .if_ .operand = .ok first ∧ f first = .ok (test, after) ∧
        Branch f bound after yes behind ∧ Otherwise f behind no s' ∧ e = .cond test yes no := by
  simp only [conditional]
  constructor
  · intro read
    obtain ⟨first, taken, read⟩ := bind_eq_ok.mp read
    obtain ⟨⟨test, after⟩, tested, read⟩ := bind_eq_ok.mp read
    dsimp only at read
    by_cases here : after.terminal? = some .leftBrace
    · rw [if_pos here] at read
      obtain ⟨yes, no, behind, branch, otherwise, rfl⟩ := branches_ok.mp read
      exact ⟨test, yes, no, first, after, behind, taken, tested, .inl ⟨here, branch⟩, otherwise, rfl⟩
    · rw [if_neg here] at read
      obtain ⟨next, keyword, read⟩ := bind_eq_ok.mp read
      obtain ⟨yes, no, behind, branch, otherwise, rfl⟩ := branches_ok.mp read
      exact ⟨test, yes, no, first, after, behind, taken, tested, .inr ⟨next, keyword, branch⟩, otherwise, rfl⟩
  · rintro ⟨test, yes, no, first, after, behind, taken, tested, branch, otherwise, rfl⟩
    refine bind_eq_ok.mpr ⟨first, taken, bind_eq_ok.mpr ⟨(test, after), tested, ?_⟩⟩
    dsimp only
    rcases branch with ⟨here, branch⟩ | ⟨next, keyword, branch⟩
    · rw [if_pos here]
      exact branches_ok.mpr ⟨yes, no, behind, branch, otherwise, rfl⟩
    · have here : ¬ after.terminal? = some .leftBrace := by
        rw [(State.take_ok.mp keyword).1]
        decide
      rw [if_neg here]
      exact bind_eq_ok.mpr ⟨next, keyword, branches_ok.mpr ⟨yes, no, behind, branch, otherwise, rfl⟩⟩

theorem selfName_ok {self : Option String} :
    selfName s = .ok (self, s') ↔
      (s.take .name .binderOpen = .ok s' ∧ self = some (word s)) ∨
        (s.terminal? ≠ some .name ∧ self = none ∧ s' = s) := by
  unfold selfName
  by_cases here : s.terminal? = some .name
  · rw [if_pos here]
    constructor
    · intro read
      obtain ⟨next, shifted, made⟩ := bind_eq_ok.mp read
      cases made
      exact .inl ⟨State.take_ok.mpr ⟨here, shifted⟩, rfl⟩
    · rintro (⟨taken, rfl⟩ | ⟨other, _⟩)
      · exact bind_eq_ok.mpr ⟨s', (State.take_ok.mp taken).2, rfl⟩
      · exact absurd here other
  · rw [if_neg here]
    constructor
    · intro read
      cases read
      exact .inr ⟨here, rfl, rfl⟩
    · rintro (⟨taken, _⟩ | ⟨_, rfl, rfl⟩)
      · exact absurd (State.take_ok.mp taken).1 here
      · rfl

theorem param_ok {x : String} :
    param s = .ok (x, s') ↔ s.take .name .afterParam = .ok s' ∧ x = word s := by
  simp only [param, bind_eq_ok]
  constructor
  · rintro ⟨next, taken, made⟩
    cases made
    exact ⟨taken, rfl⟩
  · rintro ⟨taken, rfl⟩
    exact ⟨s', taken, rfl⟩

theorem binding_ok {b : Binding} :
    binding f s = .ok (b, s') ↔
      ∃ named equals init, s.take .name .afterVariable = .ok named ∧
        named.take .equal .operand = .ok equals ∧ f equals = .ok (init, s') ∧ b = .mk (word s) init := by
  simp only [binding, bind_eq_ok, Prod.exists]
  constructor
  · rintro ⟨named, first, equals, second, init, last, read, made⟩
    cases made
    exact ⟨named, equals, init, first, second, read, rfl⟩
  · rintro ⟨named, equals, init, first, second, read, rfl⟩
    exact ⟨named, first, equals, second, init, s', read, rfl⟩

theorem leaf_ok {e' : Expr} : leaf e s = .ok (e', s') ↔ s.shift .afterOperand = .ok s' ∧ e' = e := by
  simp only [leaf, bind_eq_ok]
  constructor
  · rintro ⟨next, shifted, made⟩
    cases made
    exact ⟨shifted, rfl⟩
  · rintro ⟨shifted, rfl⟩
    exact ⟨s', shifted, rfl⟩

-- What follows the keyword of a function or of a let: a name or none, a list in parentheses and the body.
def Bound {α : Type} (f : Reader Expr) (item : Reader α) (bound : Nat) (s : State) (self : Option String)
    (xs : List α) (body : Expr) (s' : State) : Prop :=
  ∃ first head opened inner last, s.shift .binderHead = .ok first ∧ selfName first = .ok (self, head) ∧
    head.take .leftParen .listItem = .ok opened ∧
    itemsFrom .rightParen .comma .listItem item bound opened = .ok (xs, inner) ∧
    inner.take .rightParen .operand = .ok last ∧ f last = .ok (body, s')

theorem function_ok :
    function f bound s = .ok (e, s') ↔
      ∃ self params body, Bound f param bound s self params body s' ∧ e = .lambda params body self := by
  simp only [function, bind_eq_ok, Prod.exists]
  constructor
  · rintro ⟨first, shifted, self, head, named, opened, start, params, inner, read, last, stop, body, end',
      read', made⟩
    cases made
    exact ⟨self, params, body, ⟨first, head, opened, inner, last, shifted, named, start, read, stop, read'⟩, rfl⟩
  · rintro ⟨self, params, body, ⟨first, head, opened, inner, last, shifted, named, start, read, stop, read'⟩,
      rfl⟩
    exact ⟨first, shifted, self, head, named, opened, start, params, inner, read, last, stop, body, s', read',
      rfl⟩

theorem letForm_ok :
    letForm f bound s = .ok (e, s') ↔
      ∃ self bindings body, Bound f (binding f) bound s self bindings body s' ∧
        e = Descent.letExpr self bindings body := by
  simp only [letForm, bind_eq_ok, Prod.exists]
  constructor
  · rintro ⟨first, shifted, self, head, named, opened, start, bindings, inner, read, last, stop, body, end',
      read', made⟩
    refine ⟨self, bindings, body, ⟨first, head, opened, inner, last, shifted, named, start, read, stop, ?_⟩, ?_⟩
    · cases self <;> cases made <;> exact read'
    · cases self <;> cases made <;> rfl
  · rintro ⟨self, bindings, body, ⟨first, head, opened, inner, last, shifted, named, start, read, stop, read'⟩,
      rfl⟩
    refine ⟨first, shifted, self, head, named, opened, start, bindings, inner, read, last, stop, body, s', read',
      ?_⟩
    cases self <;> rfl

end Forms

section Expressions

variable {bound : Nat} {e : Expr}

theorem expression_ok :
    expression (bound + 1) s = .ok (e, s') ↔
      ∃ left next, operand bound s = .ok (left, next) ∧ operators bound left 0 next = .ok (e, s') := by
  simp only [expression, bind_eq_ok, Prod.exists]

theorem operand_ok :
    operand (bound + 1) s = .ok (e, s') ↔
      ∃ func next, atom bound s = .ok (func, next) ∧ calls bound func next = .ok (e, s') := by
  simp only [operand, bind_eq_ok, Prod.exists]

theorem calls_ok {func : Expr} :
    calls (bound + 1) func s = .ok (e, s') ↔
      (s.terminal? ≠ some .leftParen ∧ e = func ∧ s' = s) ∨
        ∃ args next, arguments (expression bound) bound s = .ok (args, next) ∧
          calls bound (.call func args) next = .ok (e, s') := by
  rw [calls]
  by_cases here : s.terminal? = some .leftParen
  · rw [if_pos here]
    simp only [bind_eq_ok, Prod.exists]
    constructor
    · exact .inr
    · rintro (⟨other, _⟩ | read)
      · exact absurd here other
      · exact read
  · rw [if_neg here]
    constructor
    · intro read
      cases read
      exact .inl ⟨here, rfl, rfl⟩
    · rintro (⟨_, rfl, rfl⟩ | ⟨args, next, read, _⟩)
      · rfl
      · obtain ⟨opened, _, taken, _⟩ := arguments_ok.mp read
        exact absurd (State.take_ok.mp taken).1 here

def levelAbove? (floor : Nat) : Lookahead → Option Nat
  | .terminal found => (precedence? found.terminal).filter (floor < ·)
  | .ended _ => none

theorem operators_stop {left : Expr} {floor : Nat} (loose : levelAbove? floor s.ahead = none) :
    operators (bound + 1) left floor s = .ok (left, s) := by
  rw [operators]
  cases ahead : s.ahead with
  | ended last => rfl
  | terminal found =>
      rw [ahead] at loose
      cases known : precedence? found.terminal with
      | none => simp only [known]; rfl
      | some level =>
          have low : ¬ floor < level := by simpa [levelAbove?, known, Option.filter] using loose
          simp only [known, if_neg low]
          rfl

theorem operators_cases {left : Expr} {floor : Nat} (read : operators (bound + 1) left floor s = .ok (e, s')) :
    (levelAbove? floor s.ahead = none ∧ e = left ∧ s' = s) ∨
      ∃ found level, s.ahead = .terminal found ∧ precedence? found.terminal = some level ∧ floor < level := by
  cases found : levelAbove? floor s.ahead with
  | none =>
      cases read.symm.trans (operators_stop found)
      exact .inl ⟨rfl, rfl, rfl⟩
  | some level =>
      cases ahead : s.ahead with
      | ended last =>
          rw [ahead] at found
          cases found
      | terminal located =>
          rw [ahead] at found
          obtain ⟨known, above⟩ := Option.filter_eq_some_iff.mp found
          exact .inr ⟨located, level, rfl, known, by simpa using above⟩

theorem operators_go {left : Expr} {floor level : Nat} {found : Located} (ahead : s.ahead = .terminal found)
    (known : precedence? found.terminal = some level) (above : floor < level) :
    operators (bound + 1) left floor s = .ok (e, s') ↔
      ∃ next right behind right' behind', s.shift .operand = .ok next ∧
        operand bound next = .ok (right, behind) ∧
        operators bound right level behind = .ok (right', behind') ∧
        operators bound (combine found.terminal found.text left right') floor behind' = .ok (e, s') := by
  rw [operators]
  simp only [ahead, known, if_pos above, bind_eq_ok, Prod.exists]
  constructor
  · rintro ⟨next, shifted, right, behind, read, right', behind', read', rest⟩
    exact ⟨next, right, behind, right', behind', shifted, read, read', rest⟩
  · rintro ⟨next, right, behind, right', behind', shifted, read, read', rest⟩
    exact ⟨next, shifted, right, behind, read, right', behind', read', rest⟩

theorem sequence_ok {es : List Expr} :
    sequence (bound + 1) s = .ok (es, s') ↔
      (s.terminal? = none ∧ es = [] ∧ s' = s) ∨
        ∃ e behind, s.terminal? ≠ none ∧ expression bound s = .ok (e, behind) ∧
          ((behind.terminal? = none ∧ es = [e] ∧ s' = behind) ∨
            ∃ again rest, behind.take .semicolon .operand = .ok again ∧
              sequence bound again = .ok (rest, s') ∧ es = e :: rest) := by
  rw [sequence]
  cases here : s.terminal? with
  | none =>
      constructor
      · intro read
        cases read
        exact .inl ⟨rfl, rfl, rfl⟩
      · rintro (⟨_, rfl, rfl⟩ | ⟨_, _, some, _⟩)
        · rfl
        · exact absurd rfl some
  | some terminal =>
      rw [if_neg (by simp)]
      constructor
      · intro read
        obtain ⟨⟨e, behind⟩, first, read⟩ := bind_eq_ok.mp read
        refine .inr ⟨e, behind, by simp, first, ?_⟩
        dsimp only at read
        by_cases ended : behind.terminal? = none
        · rw [if_pos (by simp [ended])] at read
          cases read
          exact .inl ⟨ended, rfl, rfl⟩
        · rw [if_neg (by simp [ended])] at read
          obtain ⟨again, taken, read⟩ := bind_eq_ok.mp read
          obtain ⟨⟨rest, last⟩, others, made⟩ := bind_eq_ok.mp read
          cases made
          exact .inr ⟨again, rest, taken, others, rfl⟩
      · rintro (⟨none, _⟩ | ⟨e, behind, _, first, rest⟩)
        · cases none
        · refine bind_eq_ok.mpr ⟨(e, behind), first, ?_⟩
          dsimp only
          rcases rest with ⟨ended, rfl, rfl⟩ | ⟨again, rest, taken, others, rfl⟩
          · rw [if_pos (by simp [ended])]
            rfl
          · rw [if_neg (by simp [(State.take_ok.mp taken).1])]
            exact bind_eq_ok.mpr ⟨again, taken, bind_eq_ok.mpr ⟨(rest, s'), others, rfl⟩⟩

end Expressions

section Passing

def KeepsPassed {α : Type} (g : Reader α) : Prop :=
  ∀ {s s' : State} {a : α}, g s = .ok (a, s') → s.passed <:+ s'.passed

theorem State.taken_passed (s : State) : s.taken <:+ s.passed := by
  unfold State.passed
  cases s.ahead with
  | terminal found => exact List.suffix_cons found s.taken
  | ended last => exact List.suffix_rfl

theorem State.shift_keepsPassed {context : Context} (shifted : s.shift context = .ok s') :
    s.passed <:+ s'.passed := by
  obtain ⟨ahead, cursor, _, rfl⟩ := State.shift_ok.mp shifted
  exact State.taken_passed ⟨ahead, cursor, s.passed⟩

theorem State.take_keepsPassed {terminal : Terminal} {context : Context}
    (taken : s.take terminal context = .ok s') : s.passed <:+ s'.passed :=
  State.shift_keepsPassed (State.take_ok.mp taken).2

theorem Listed.passes {α : Type} {stop separator : Terminal} {next : Context} {item : Reader α} {xs : List α}
    (passes : KeepsPassed item) (listed : Listed stop separator next item s xs s') : s.passed <:+ s'.passed := by
  induction listed with
  | none => exact List.suffix_rfl
  | last _ read _ => exact passes read
  | more _ read _ shifted _ ih => exact ((passes read).trans (State.shift_keepsPassed shifted)).trans ih

theorem itemsFrom_keepsPassed {α : Type} {stop separator : Terminal} {next : Context} {item : Reader α}
    {bound : Nat} (passes : KeepsPassed item) : KeepsPassed (itemsFrom stop separator next item bound) :=
  fun read => (listed_of_itemsFrom read).passes passes

variable {f : Reader Expr} {bound : Nat}

theorem arguments_keepsPassed (passes : KeepsPassed f) : KeepsPassed (arguments f bound) := by
  intro s s' args read
  obtain ⟨opened, inner, first, items, last⟩ := arguments_ok.mp read
  exact ((State.take_keepsPassed first).trans (itemsFrom_keepsPassed passes items)).trans (State.take_keepsPassed last)

theorem block_keepsPassed (passes : KeepsPassed f) : KeepsPassed (block f bound) := by
  intro s s' e read
  obtain ⟨items, opened, inner, first, listed, last, _⟩ := block_ok.mp read
  exact ((State.take_keepsPassed first).trans (itemsFrom_keepsPassed passes listed)).trans (State.take_keepsPassed last)

theorem group_keepsPassed (passes : KeepsPassed f) : KeepsPassed (group f) := by
  intro s s' e read
  obtain ⟨opened, inner, first, within, last⟩ := group_ok.mp read
  exact ((State.take_keepsPassed first).trans (passes within)).trans (State.take_keepsPassed last)

theorem Branch.passes (passes : KeepsPassed f) {yes : Expr} (branch : Branch f bound s yes s') :
    s.passed <:+ s'.passed := by
  rcases branch with ⟨_, read⟩ | ⟨next, taken, read⟩
  · exact block_keepsPassed passes read
  · exact (State.take_keepsPassed taken).trans (passes read)

theorem Otherwise.passes (passes : KeepsPassed f) {no : Expr} (otherwise : Otherwise f s no s') :
    s.passed <:+ s'.passed := by
  rcases otherwise with ⟨next, taken, read⟩ | ⟨_, _, rfl⟩
  · exact (State.take_keepsPassed taken).trans (passes read)
  · exact List.suffix_rfl

theorem conditional_keepsPassed (passes : KeepsPassed f) : KeepsPassed (conditional f bound) := by
  intro s s' e read
  obtain ⟨test, yes, no, first, after, behind, taken, tested, branch, otherwise, _⟩ := conditional_ok.mp read
  have tests := (State.take_keepsPassed taken).trans (passes tested)
  exact (tests.trans (branch.passes passes)).trans (otherwise.passes passes)

theorem selfName_keepsPassed : KeepsPassed selfName := by
  intro s s' self read
  rcases selfName_ok.mp read with ⟨taken, _⟩ | ⟨_, _, rfl⟩
  · exact State.take_keepsPassed taken
  · exact List.suffix_rfl

theorem param_keepsPassed : KeepsPassed param := fun read => State.take_keepsPassed (param_ok.mp read).1

theorem binding_keepsPassed (passes : KeepsPassed f) : KeepsPassed (binding f) := by
  intro s s' b read
  obtain ⟨named, equals, init, first, second, given, _⟩ := binding_ok.mp read
  exact ((State.take_keepsPassed first).trans (State.take_keepsPassed second)).trans (passes given)

theorem Bound.passes {α : Type} {item : Reader α} {self : Option String} {xs : List α} {body : Expr}
    (passes : KeepsPassed f) (items : KeepsPassed item) (bounded : Bound f item bound s self xs body s') :
    s.passed <:+ s'.passed := by
  obtain ⟨first, head, opened, inner, last, shifted, named, start, listed, stop, read⟩ := bounded
  have heads := (State.shift_keepsPassed shifted).trans (selfName_keepsPassed named)
  have inside := (State.take_keepsPassed start).trans (itemsFrom_keepsPassed items listed)
  exact ((heads.trans inside).trans (State.take_keepsPassed stop)).trans (passes read)

theorem function_keepsPassed (passes : KeepsPassed f) : KeepsPassed (function f bound) := by
  intro s s' e read
  obtain ⟨self, params, body, bounded, _⟩ := function_ok.mp read
  exact bounded.passes passes param_keepsPassed

theorem letForm_keepsPassed (passes : KeepsPassed f) : KeepsPassed (letForm f bound) := by
  intro s s' e read
  obtain ⟨self, bindings, body, bounded, _⟩ := letForm_ok.mp read
  exact bounded.passes passes (binding_keepsPassed passes)

theorem leaf_keepsPassed {e : Expr} : KeepsPassed (leaf e) := fun read => State.shift_keepsPassed (leaf_ok.mp read).1

theorem atomForm_keepsPassed (passes : KeepsPassed f) : KeepsPassed (atomForm f bound) := by
  intro s s' e read
  unfold atomForm at read
  split at read
  · exact group_keepsPassed passes read
  · exact block_keepsPassed passes read
  · exact conditional_keepsPassed passes read
  · exact function_keepsPassed passes read
  · exact function_keepsPassed passes read
  · exact letForm_keepsPassed passes read
  · exact leaf_keepsPassed read
  · exact leaf_keepsPassed read
  · exact leaf_keepsPassed read
  · exact leaf_keepsPassed read
  · exact leaf_keepsPassed read
  · exact absurd read (unexpected_ne _ _)

structure AllKeepPassed (bound : Nat) : Prop where
  expression : KeepsPassed (expression bound)
  operand : KeepsPassed (operand bound)
  atom : KeepsPassed (atom bound)
  operators : ∀ left floor, KeepsPassed (operators bound left floor)
  calls : ∀ func, KeepsPassed (calls bound func)

theorem all_pass (bound : Nat) : AllKeepPassed bound := by
  induction bound with
  | zero => exact ⟨nofun, nofun, nofun, fun _ _ => nofun, fun _ => nofun⟩
  | succ bound ih =>
      refine ⟨?_, ?_, ?_, ?_, ?_⟩
      · intro s s' e read
        obtain ⟨left, next, first, rest⟩ := expression_ok.mp read
        exact (ih.operand first).trans (ih.operators left 0 rest)
      · intro s s' e read
        obtain ⟨func, next, first, rest⟩ := operand_ok.mp read
        exact (ih.atom first).trans (ih.calls func rest)
      · exact atomForm_keepsPassed ih.expression
      · intro left floor s s' e read
        rcases operators_cases read with ⟨_, _, rfl⟩ | ⟨found, level, ahead, known, above⟩
        · exact List.suffix_rfl
        · obtain ⟨next, right, behind, right', behind', shifted, first, others, rest⟩ :=
            (operators_go ahead known above).mp read
          have tight := (ih.operand first).trans (ih.operators right level others)
          exact ((State.shift_keepsPassed shifted).trans tight).trans (ih.operators _ floor rest)
      · intro func s s' e read
        rcases calls_ok.mp read with ⟨_, _, rfl⟩ | ⟨args, next, first, rest⟩
        · exact List.suffix_rfl
        · exact (arguments_keepsPassed ih.expression first).trans (ih.calls _ rest)

theorem sequence_keepsPassed : KeepsPassed (sequence bound) := by
  induction bound with
  | zero => exact nofun
  | succ bound ih =>
      intro s s' es read
      rcases sequence_ok.mp read with ⟨_, _, rfl⟩ | ⟨e, behind, _, first, rest⟩
      · exact List.suffix_rfl
      · have begin := (all_pass bound).expression first
        rcases rest with ⟨_, _, rfl⟩ | ⟨again, others, taken, more, _⟩
        · exact begin
        · exact (begin.trans (State.take_keepsPassed taken)).trans (ih more)

end Passing

end Trampoline.Grammar

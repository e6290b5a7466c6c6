import Trampoline.Proofs.Passes

set_option autoImplicit false

namespace Trampoline

namespace Descent

-- The same result, and not for want of a larger bound.
structure Alike {β : Type} (r r' : Except ParseError β) : Prop where
  same : r = r'
  found : ∀ e, r = .error e → e.cause ≠ .tooDeep

def AlikeBelow {β : Type} (n : Nat) (run run' : Tokens → Except ParseError β) : Prop :=
  ∀ ts, ts.list.length < n → Alike (run ts) (run' ts)

theorem AlikeBelow.zero {β : Type} {run run' : Tokens → Except ParseError β} : AlikeBelow 0 run run' :=
  fun _ short => absurd short (Nat.not_lt_zero _)

namespace Alike

variable {α β : Type} {ts : Tokens}

theorem ok (x : β) : Alike (.ok x) (.ok x) := by
  refine ⟨rfl, fun e failed => ?_⟩
  cases failed

theorem fault {cause : ParseCause} (other : cause ≠ .tooDeep) :
    Alike (ts.fault cause : Except ParseError β) (ts.fault cause) := by
  refine ⟨rfl, fun e failed => ?_⟩
  cases failed
  exact other

theorem bind {x x' : Except ParseError α} {f f' : α → Except ParseError β} (first : Alike x x')
    (second : ∀ a, x = .ok a → Alike (f a) (f' a)) : Alike (x >>= f) (x' >>= f') := by
  obtain ⟨rfl, found⟩ := first
  cases x with
  | error e =>
      refine ⟨rfl, fun e' failed => ?_⟩
      cases failed
      exact found e rfl
  | ok a => exact second a rfl

theorem peek (ts : Tokens) : Alike ts.peek ts.peek := by
  obtain ⟨list, ending⟩ := ts
  cases list with
  | cons t rest => exact ok _
  | nil =>
      cases ending with
      | ended p => exact ok _
      | stray c p =>
          refine ⟨rfl, fun e failed => ?_⟩
          cases failed
          simp [ParseCause.located]

theorem takeMark (mark : Char) (ts : Tokens) : Alike (ts.takeMark mark) (ts.takeMark mark) := by
  refine (peek ts).bind fun ahead _ => ?_
  split
  · exact ok _
  · exact fault (by simp)

theorem takeKeyword (word : Keyword) (ts : Tokens) : Alike (ts.takeKeyword word) (ts.takeKeyword word) := by
  refine (peek ts).bind fun ahead _ => ?_
  split
  · exact ok _
  · exact fault (by simp)

theorem name (ts : Tokens) : Alike (Descent.name ts) (Descent.name ts) := by
  refine (peek ts).bind fun ahead _ => ?_
  split
  · exact ok _
  · exact fault (by simp)

theorem name? (ts : Tokens) : Alike (Descent.name? ts) (Descent.name? ts) := by
  refine (peek ts).bind fun ahead _ => ?_
  split
  · exact ok _
  · exact ok _

end Alike

section Lists

variable {α : Type} {stop separator : Char} {item item' : Reader α} {n : Nat} {ts : Tokens}
  (alike : AlikeBelow n item item')

include alike

theorem alike_itemAt (short : ts.list.length < n) : Alike (itemAt stop item ts) (itemAt stop item' ts) := by
  refine (Alike.peek ts).bind fun ahead _ => ?_
  split
  · exact .ok _
  · exact (alike ts short).bind fun _ _ => .ok _

theorem alike_itemPass (first : Bool) (short : ts.list.length < n) :
    Alike (itemPass stop separator item first ts) (itemPass stop separator item' first ts) := by
  refine (Alike.peek ts).bind fun ahead _ => ?_
  cases ahead with
  | none => exact .ok _
  | some l =>
      simp only
      split
      · exact .ok _
      · cases first with
        | true => exact alike_itemAt alike short
        | false =>
            refine (Alike.takeMark separator ts).bind fun inner taken => ?_
            obtain ⟨separated, rfl⟩ := Tokens.takeMark_ok.mp taken
            have front := Tokens.length_tail separated
            exact alike_itemAt alike (by omega)

variable (takes : Takes item) {bound bound' : Nat}

include takes

theorem alike_itemsFrom (first : Bool) (short : ts.list.length < n) (enough : ts.list.length < bound)
    (enough' : ts.list.length < bound') :
    Alike (itemsFrom stop separator item bound first ts) (itemsFrom stop separator item' bound' first ts) := by
  induction bound generalizing bound' first ts with
  | zero => omega
  | succ bound ih =>
      cases bound' with
      | zero => omega
      | succ bound' =>
          rw [itemsFrom_pass, itemsFrom_pass]
          refine (alike_itemPass alike first short).bind fun r pass => ?_
          obtain ⟨next, behind⟩ := r
          obtain ⟨_, goes⟩ := advances_itemPass takes first _ _ _ pass
          cases next with
          | none => exact .ok _
          | some x =>
              have fewer := goes rfl
              exact (ih false (by omega) (by omega) (by omega)).bind fun _ _ => .ok _

theorem alike_delimited (start : Char) (short : ts.list.length ≤ n) (enough : n ≤ bound) (enough' : n ≤ bound') :
    Alike (delimited stop separator item start bound ts) (delimited stop separator item' start bound' ts) := by
  refine (Alike.takeMark start ts).bind fun inner taken => ?_
  obtain ⟨opened, rfl⟩ := Tokens.takeMark_ok.mp taken
  have front := Tokens.length_tail opened
  refine (alike_itemsFrom alike takes true (by omega) (by omega) (by omega)).bind fun r _ => ?_
  exact (Alike.takeMark stop r.2).bind fun _ _ => .ok _

end Lists

section Forms

variable {f f' : Reader Expr} {n bound bound' : Nat} {ts : Tokens} (alike : AlikeBelow n f f') (takes : Takes f)

include alike

theorem alike_binding : AlikeBelow n (binding f) (binding f') := by
  intro ts short
  refine (Alike.name ts).bind fun r read => ?_
  obtain ⟨x, behind⟩ := r
  obtain ⟨named, rfl⟩ := name_ok.mp read
  refine (Alike.peek _).bind fun ahead peeked => ?_
  have front := Tokens.length_tail named
  dsimp only
  split
  · have sign := Tokens.length_tail peeked
    exact (alike _ (by omega)).bind fun _ _ => .ok _
  · exact .fault (by simp)

theorem alike_group (short : ts.list.length ≤ n) : Alike (group f ts) (group f' ts) := by
  refine (Alike.takeMark '(' ts).bind fun inner taken => ?_
  obtain ⟨opened, rfl⟩ := Tokens.takeMark_ok.mp taken
  have front := Tokens.length_tail opened
  refine (alike _ (by omega)).bind fun r _ => ?_
  exact (Alike.takeMark ')' r.2).bind fun _ _ => .ok _

theorem alike_binders {α : Type} {item item' : Reader α} {l : Lexeme}
    {made : Option String × Tokens → List α × Tokens → Expr × Tokens → Except ParseError (Expr × Tokens)}
    (enough : n ≤ bound) (enough' : n ≤ bound') (items : AlikeBelow n item item') (each : Takes item)
    (final : ∀ r r' r'', Alike (made r r' r'') (made r r' r'')) (ahead : ts.Ahead l) (short : ts.list.length ≤ n) :
    Alike
      (name? ts.tail >>= fun r => delimited ')' ',' item '(' bound r.2 >>= fun r' => f r'.2 >>= made r r')
      (name? ts.tail >>= fun r => delimited ')' ',' item' '(' bound' r.2 >>= fun r' => f' r'.2 >>= made r r') := by
  have front := Tokens.length_tail ahead
  refine (Alike.name? ts.tail).bind fun r named => ?_
  obtain ⟨self, head⟩ := r
  have within : head.list.length < n := by
    rcases name?_ok.mp named with ⟨x, here, _, rfl⟩ | ⟨_, _, _, _, rfl⟩
    · have tail := Tokens.length_tail here
      omega
    · omega
  refine (alike_delimited items each '(' (Nat.le_of_lt within) enough enough').bind fun r read => ?_
  obtain ⟨xs, behind⟩ := r
  have fewer : behind.list.length < head.list.length := takes_delimited each _ _ _ _ _ read
  exact (alike behind (Nat.lt_trans fewer within)).bind fun r _ => final _ _ r

theorem alike_function {l : Lexeme} (enough : n ≤ bound) (enough' : n ≤ bound') (ahead : ts.Ahead l)
    (short : ts.list.length ≤ n) : Alike (function f bound ts) (function f' bound' ts) :=
  alike_binders alike enough enough' (fun ts _ => .name ts) takes_name (fun _ _ _ => .ok _) ahead short

include takes

theorem alike_branches {test : Expr} {start : Tokens} (short : start.list.length < n) :
    Alike
      (do
        let (yes, behind) ← f start
        if Tokens.isKeyword .else_ (← behind.peek) then
          let (no, behind) ← f behind.tail
          return (Expr.cond test yes no, behind)
        return (Expr.cond test yes .hole, behind))
      (do
        let (yes, behind) ← f' start
        if Tokens.isKeyword .else_ (← behind.peek) then
          let (no, behind) ← f' behind.tail
          return (Expr.cond test yes no, behind)
        return (Expr.cond test yes .hole, behind)) := by
  refine (alike start short).bind fun r read => ?_
  obtain ⟨yes, behind⟩ := r
  have fewer := takes _ _ _ read
  refine (Alike.peek behind).bind fun ahead peeked => ?_
  split
  · rename_i keyword
    rw [Tokens.isKeyword_iff.mp keyword] at peeked
    have tail := Tokens.length_tail peeked
    exact (alike _ (by omega)).bind fun _ _ => .ok _
  · exact .ok _

theorem alike_conditional (short : ts.list.length ≤ n) : Alike (conditional f ts) (conditional f' ts) := by
  refine (Alike.takeKeyword .if_ ts).bind fun inner taken => ?_
  obtain ⟨first, rfl⟩ := Tokens.takeKeyword_ok.mp taken
  have front := Tokens.length_tail first
  refine (alike _ (by omega)).bind fun r read => ?_
  obtain ⟨test, behind⟩ := r
  have tested := takes _ _ _ read
  refine (Alike.peek behind).bind fun ahead _ => ?_
  split
  · exact alike_branches alike takes (by omega)
  · refine (Alike.takeKeyword .then_ behind).bind fun start taken => ?_
    obtain ⟨keyword, rfl⟩ := Tokens.takeKeyword_ok.mp taken
    have tail := Tokens.length_tail keyword
    exact alike_branches alike takes (by omega)

variable (enough : n ≤ bound) (enough' : n ≤ bound')

include enough enough'

theorem alike_block (short : ts.list.length ≤ n) : Alike (block f bound ts) (block f' bound' ts) :=
  (alike_delimited alike takes '\x7b' short enough enough').bind fun _ _ => .ok _

theorem alike_letForm {l : Lexeme} (ahead : ts.Ahead l) (short : ts.list.length ≤ n) :
    Alike (letForm f bound ts) (letForm f' bound' ts) := by
  refine alike_binders alike enough enough' (alike_binding alike) (takes_binding takes) ?_ ahead short
  intro r _ _
  obtain ⟨self, head⟩ := r
  cases self with
  | none => exact .ok _
  | some x => exact .ok _

theorem alike_atomForm (short : ts.list.length ≤ n) : Alike (atomForm f bound ts) (atomForm f' bound' ts) := by
  refine (Alike.peek ts).bind fun ahead peeked => ?_
  split
  · exact .fault (by simp)
  · exact alike_group alike short
  · exact alike_block alike takes enough enough' short
  · exact alike_conditional alike takes short
  · exact .ok _
  · exact .ok _
  · exact alike_function alike enough enough' peeked short
  · exact alike_function alike enough enough' peeked short
  · exact alike_letForm alike takes enough enough' peeked short
  · exact .ok _
  · exact .ok _
  · exact .ok _
  · exact .fault (by simp)

end Forms

structure AllAlike (n : Nat) : Prop where
  expression : ∀ {b b' : Nat}, 3 * n ≤ b → 3 * n ≤ b' → AlikeBelow n (expression b) (expression b')
  operators : ∀ {b b' : Nat} (left : Expr) (floor : Nat), 3 * n ≤ b + 2 → 3 * n ≤ b' + 2 →
    AlikeBelow n (operators b left floor) (operators b' left floor)
  operand : ∀ {b b' : Nat}, 3 * n ≤ b + 1 → 3 * n ≤ b' + 1 → AlikeBelow n (operand b) (operand b')
  calls : ∀ {b b' : Nat} (func : Expr), 3 * n ≤ b + 2 → 3 * n ≤ b' + 2 → AlikeBelow n (calls b func) (calls b' func)
  atom : ∀ {b b' : Nat}, 3 * n ≤ b + 2 → 3 * n ≤ b' + 2 → AlikeBelow n (atom b) (atom b')

namespace AllAlike

variable {n b b' : Nat} (before : AllAlike n) (enough : 3 * n ≤ b) (enough' : 3 * n ≤ b')

include before enough enough'

theorem alike_atom : AlikeBelow (n + 1) (Descent.atom (b + 1)) (Descent.atom (b' + 1)) := by
  intro ts short
  exact alike_atomForm (before.expression enough enough') (takes_expression b) (by omega) (by omega)
    (Nat.le_of_lt_succ short)

theorem alike_callPass (func : Expr) {ts : Tokens} (short : ts.list.length ≤ n) :
    Alike (callPass b func ts) (callPass b' func ts) := by
  refine (Alike.peek ts).bind fun ahead _ => ?_
  split
  · exact (alike_delimited (before.expression enough enough') (takes_expression b) '(' short (by omega)
      (by omega)).bind fun _ _ => .ok _
  · exact .ok _

theorem alike_calls (func : Expr) : AlikeBelow (n + 1) (Descent.calls (b + 1) func) (Descent.calls (b' + 1) func) := by
  intro ts short
  rw [calls_pass, calls_pass]
  refine (alike_callPass before enough enough' func (Nat.le_of_lt_succ short)).bind fun r pass => ?_
  obtain ⟨next, behind⟩ := r
  cases next with
  | none => exact .ok _
  | some func =>
      have fewer := (advances_callPass b _ _ _ _ pass).2 rfl
      exact before.calls func (by omega) (by omega) behind (by omega)

theorem alike_operatorPass (left : Expr) (floor : Nat) {ts : Tokens} (short : ts.list.length ≤ n) :
    Alike (operatorPass b left floor ts) (operatorPass b' left floor ts) := by
  refine (Alike.peek ts).bind fun ahead peeked => ?_
  cases tight : above? floor ahead with
  | none => exact .ok _
  | some found =>
      obtain ⟨l, rfl⟩ := exists_of_above? tight
      have front := Tokens.length_tail peeked
      refine (before.operand (by omega) (by omega) ts.tail (by omega)).bind fun r read => ?_
      obtain ⟨right, behind⟩ := r
      have fewer := takes_operand b _ _ _ read
      exact (before.operators right found.2 (by omega) (by omega) behind (by omega)).bind fun _ _ => .ok _

theorem alike_operators (left : Expr) (floor : Nat) :
    AlikeBelow (n + 1) (Descent.operators (b + 1) left floor) (Descent.operators (b' + 1) left floor) := by
  intro ts short
  rw [operators_pass, operators_pass]
  refine (alike_operatorPass before enough enough' left floor (Nat.le_of_lt_succ short)).bind fun r pass => ?_
  obtain ⟨next, behind⟩ := r
  cases next with
  | none => exact .ok _
  | some left =>
      have fewer := (advances_operatorPass b _ _ _ _ _ pass).2 rfl
      exact before.operators left floor (by omega) (by omega) behind (by omega)

end AllAlike

theorem bound_pred {n b : Nat} (slack : Nat) (low : slack ≤ 2) (enough : 3 * (n + 1) ≤ b + slack) :
    ∃ c, b = c + 1 ∧ 3 * (n + 1) ≤ c + (slack + 1) :=
  ⟨b - 1, by omega, by omega⟩

-- On the same tokens an expression starts with an operand and an operand with an atom: three readers before a token is
-- taken.
theorem AllAlike.succ {n : Nat} (before : AllAlike n) : AllAlike (n + 1) := by
  have atoms {b b' : Nat} (enough : 3 * (n + 1) ≤ b + 2) (enough' : 3 * (n + 1) ≤ b' + 2) :
      AlikeBelow (n + 1) (Descent.atom b) (Descent.atom b') := by
    obtain ⟨c, rfl, less⟩ := bound_pred 2 (Nat.le_refl 2) enough
    obtain ⟨c', rfl, less'⟩ := bound_pred 2 (Nat.le_refl 2) enough'
    exact before.alike_atom (by omega) (by omega)
  have callers {b b' : Nat} (func : Expr) (enough : 3 * (n + 1) ≤ b + 2) (enough' : 3 * (n + 1) ≤ b' + 2) :
      AlikeBelow (n + 1) (Descent.calls b func) (Descent.calls b' func) := by
    obtain ⟨c, rfl, less⟩ := bound_pred 2 (Nat.le_refl 2) enough
    obtain ⟨c', rfl, less'⟩ := bound_pred 2 (Nat.le_refl 2) enough'
    exact before.alike_calls (by omega) (by omega) func
  have chains {b b' : Nat} (left : Expr) (floor : Nat) (enough : 3 * (n + 1) ≤ b + 2)
      (enough' : 3 * (n + 1) ≤ b' + 2) :
      AlikeBelow (n + 1) (Descent.operators b left floor) (Descent.operators b' left floor) := by
    obtain ⟨c, rfl, less⟩ := bound_pred 2 (Nat.le_refl 2) enough
    obtain ⟨c', rfl, less'⟩ := bound_pred 2 (Nat.le_refl 2) enough'
    exact before.alike_operators (by omega) (by omega) left floor
  have operands {b b' : Nat} (enough : 3 * (n + 1) ≤ b + 1) (enough' : 3 * (n + 1) ≤ b' + 1) :
      AlikeBelow (n + 1) (Descent.operand b) (Descent.operand b') := by
    obtain ⟨c, rfl, less⟩ := bound_pred 1 (by decide) enough
    obtain ⟨c', rfl, less'⟩ := bound_pred 1 (by decide) enough'
    intro ts short
    refine (atoms less less' ts short).bind fun r read => ?_
    have fewer := takes_atom c _ _ _ read
    exact callers r.1 less less' r.2 (Nat.lt_trans fewer short)
  refine ⟨?_, chains, operands, callers, atoms⟩
  intro b b' enough enough'
  obtain ⟨c, rfl, less⟩ := bound_pred 0 (by decide) enough
  obtain ⟨c', rfl, less'⟩ := bound_pred 0 (by decide) enough'
  intro ts short
  refine (operands less less' ts short).bind fun r read => ?_
  have fewer := takes_operand c _ _ _ read
  exact chains r.1 0 (by omega) (by omega) r.2 (Nat.lt_trans fewer short)

theorem allAlike (n : Nat) : AllAlike n := by
  induction n with
  | zero => exact ⟨fun _ _ => .zero, fun _ _ _ _ => .zero, fun _ _ => .zero, fun _ _ _ => .zero, fun _ _ => .zero⟩
  | succ n before => exact before.succ

theorem alike_programPass {n b b' : Nat} {ts : Tokens} (enough : 3 * n ≤ b) (enough' : 3 * n ≤ b')
    (short : ts.list.length < n) : Alike (programPass b ts) (programPass b' ts) := by
  refine (Alike.peek ts).bind fun ahead _ => ?_
  split
  · exact .ok _
  · refine ((allAlike n).expression enough enough' ts short).bind fun r _ => ?_
    refine (Alike.peek r.2).bind fun ahead _ => ?_
    split
    · exact .ok _
    · exact (Alike.takeMark ';' r.2).bind fun _ _ => .ok _

theorem alike_sequence {n b b' : Nat} (enough : 3 * n < b) (enough' : 3 * n < b') :
    AlikeBelow n (sequence b) (sequence b') := by
  induction n generalizing b b' with
  | zero => exact .zero
  | succ n ih =>
      obtain ⟨c, rfl⟩ : ∃ c, b = c + 2 := ⟨b - 2, by omega⟩
      obtain ⟨c', rfl⟩ : ∃ c, b' = c + 2 := ⟨b' - 2, by omega⟩
      intro ts short
      rw [sequence_pass, sequence_pass]
      refine (alike_programPass (Nat.le_of_lt_succ enough) (Nat.le_of_lt_succ enough') short).bind fun r pass => ?_
      obtain ⟨next, behind⟩ := r
      cases next with
      | none => exact .ok _
      | some e =>
          have fewer := (advances_programPass _ _ _ _ pass).2 rfl
          exact (ih (by omega) (by omega) behind (by omega)).bind fun _ _ => .ok _

section Outermost

variable {bound : Nat} {ts ts' : Tokens} {e : Expr}

def Uncalled (ts : Tokens) : Prop := ∃ ahead, ts.peek = .ok ahead ∧ ahead ≠ some (.punctuation '(')

theorem uncalled_calls {func : Expr} (read : calls bound func ts = .ok (e, ts')) : Uncalled ts' := by
  induction bound generalizing func ts with
  | zero => cases read
  | succ bound ih =>
      rcases calls_cases read with ⟨ahead, peeked, other, _, rfl⟩ | ahead
      · exact ⟨ahead, peeked, other⟩
      · obtain ⟨_, _, _, _, rest⟩ := (calls_go ahead).mp read
        exact ih rest

theorem uncalled_operand (read : operand bound ts = .ok (e, ts')) : Uncalled ts' := by
  cases bound with
  | zero => cases read
  | succ bound =>
      obtain ⟨_, _, _, rest⟩ := operand_ok.mp read
      exact uncalled_calls rest

theorem uncalled_operators {left : Expr} {floor : Nat} (start : Uncalled ts)
    (read : operators bound left floor ts = .ok (e, ts')) : Uncalled ts' := by
  induction bound generalizing left floor ts e ts' with
  | zero => cases read
  | succ bound ih =>
      rcases operators_cases read with ⟨_, _, _, _, rfl⟩ | ⟨symbol, level, ahead, found, above⟩
      · exact start
      · obtain ⟨right, _, right', _, first, second, rest⟩ := (operators_go ahead found above).mp read
        exact ih (ih (uncalled_operand first) second) rest

theorem calls_behind_expression (read : expression bound ts = .ok (e, ts')) (more : Nat) :
    calls (more + 1) e ts' = .ok (e, ts') := by
  cases bound with
  | zero => cases read
  | succ bound =>
      obtain ⟨left, _, first, rest⟩ := expression_ok.mp read
      obtain ⟨ahead, peeked, other⟩ := uncalled_operators (uncalled_operand first) rest
      exact calls_stop peeked other

end Outermost

structure ReadersTake (bound : Nat) : Prop where
  expression : Takes (expression bound)
  operand : Takes (operand bound)
  atom : Takes (atom bound)
  name : Takes name
  binding : Takes (binding (Descent.expression bound))

structure LoopsAdvance (bound : Nat) : Prop where
  program : Advances (programPass bound) ∧
    ∀ ts, sequence (bound + 2) ts = programPass (bound + 1) ts >>= collectAll (sequence (bound + 1))
  items : ∀ {α : Type} (stop separator : Char) (item : Reader α) (first : Bool), Takes item →
    Advances (itemPass stop separator item first) ∧
      ∀ ts, itemsFrom stop separator item (bound + 1) first ts =
        itemPass stop separator item first ts >>= collect (itemsFrom stop separator item bound false)
  calls : ∀ func, Advances (callPass bound func) ∧
    ∀ ts, calls (bound + 1) func ts = callPass bound func ts >>= extend (calls bound) func
  operators : ∀ left floor, Advances (operatorPass bound left floor) ∧
    ∀ ts, operators (bound + 1) left floor ts =
      operatorPass bound left floor ts >>= extend (fun e => operators bound e floor) left

-- The front end comes to an end on all tokens: with an expression, or with an error that is not for want of a larger
-- bound. A bound of three to a token is enough for each reader, and any larger one makes no difference. This is because
-- readers that succeed and passes of loops that go on have taken tokens. A second look for argument lists, behind an
-- expression, finds none.
theorem descent_comes_to_an_end :
    (∀ ts, (∃ e, program ts = .ok e) ∨ ∃ e, program ts = .error e ∧ e.cause ≠ .tooDeep) ∧
    (∀ ts bound, 3 * ts.list.length + 3 < bound → (sequence bound ts).map .prog = program ts) ∧
    (∀ n, AllAlike n) ∧
    (∀ bound, ReadersTake bound) ∧
    (∀ bound, LoopsAdvance bound) ∧
    ∀ bound ts e ts', expression bound ts = .ok (e, ts') → ∀ more, calls (more + 1) e ts' = .ok (e, ts') := by
  have wide (ts : Tokens) : 3 * ts.list.length + 3 < boundFor ts := by
    unfold boundFor
    omega
  have settled (ts : Tokens) {bound : Nat} (enough : 3 * ts.list.length + 3 < bound) :
      Alike (sequence bound ts) (sequence (boundFor ts) ts) :=
    alike_sequence enough (wide ts) ts (Nat.lt_succ_self _)
  refine ⟨fun ts => ?_, fun ts bound enough => ?_, allAlike, fun bound => ?_, fun bound => ?_, ?_⟩
  · have found := (settled ts (wide ts)).found
    rw [program]
    cases read : sequence (boundFor ts) ts with
    | ok es => exact .inl ⟨.prog es, rfl⟩
    | error e => exact .inr ⟨e, rfl, found e read⟩
  · rw [program, (settled ts enough).same]
  · exact ⟨takes_expression bound, takes_operand bound, takes_atom bound, takes_name,
      takes_binding (takes_expression bound)⟩
  · exact ⟨⟨advances_programPass bound, fun _ => sequence_pass⟩,
      fun _ _ _ first takes => ⟨advances_itemPass takes first, fun _ => itemsFrom_pass first⟩,
      fun func => ⟨advances_callPass bound func, fun _ => calls_pass func⟩,
      fun left floor => ⟨advances_operatorPass bound left floor, fun _ => operators_pass left floor⟩⟩
  · exact fun _ _ _ _ read => calls_behind_expression read

def unfinishedCall : Tokens where
  list := ([.name "f", .punctuation '(', .name "a", .punctuation ',', .punctuation '\x7b', .name "b",
    .operator "+"] : List Lexeme).map fun l => ⟨l, {}, {}⟩
  ending := .ended {}

theorem unfinishedCall_refused :
    program unfinishedCall = .error ⟨.unexpectedEnd, 1, 0⟩ ∧
      (sequence 25 unfinishedCall).map Expr.prog = .error ⟨.unexpectedEnd, 1, 0⟩ := by
  have refused : program unfinishedCall = .error ⟨.unexpectedEnd, 1, 0⟩ := rfl
  obtain ⟨_, settled, _⟩ := descent_comes_to_an_end
  exact ⟨refused, (settled unfinishedCall 25 (by decide)).trans refused⟩

end Descent

end Trampoline

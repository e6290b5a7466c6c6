import Trampoline.Proofs.Phrases

set_option autoImplicit false

namespace Trampoline

namespace Descent

def above? (floor : Nat) : Option Lexeme → Option (String × Nat)
  | some (.operator symbol) => ((precedence? symbol).filter (floor < ·)).map fun level => (symbol, level)
  | _ => none

theorem exists_of_above? {floor : Nat} {ahead : Option Lexeme} {found : String × Nat}
    (tight : above? floor ahead = some found) : ∃ l, ahead = some l := by
  cases ahead with
  | none => cases tight
  | some l => exact ⟨l, rfl⟩

section Passes

variable {α : Type} (stop separator : Char) (item : Reader α) (bound : Nat)

def itemAt : Reader (Option α) := fun ts => do
  if Tokens.isMark stop (← ts.peek) then return (none, ts)
  let (x, ts) ← item ts
  return (some x, ts)

def itemPass (first : Bool) : Reader (Option α) := fun ts => do
  match ← ts.peek with
  | none => return (none, ts)
  | some lexeme =>
      if Tokens.isMark stop (some lexeme) then return (none, ts)
      if first then itemAt stop item ts else ts.takeMark separator >>= itemAt stop item

def callPass (func : Expr) : Reader (Option Expr) := fun ts => do
  if Tokens.isMark '(' (← ts.peek) then
    let (args, ts) ← delimited ')' ',' (expression bound) '(' bound ts
    return (some (.call func args), ts)
  else return (none, ts)

def operatorPass (left : Expr) (floor : Nat) : Reader (Option Expr) := fun ts => do
  match above? floor (← ts.peek) with
  | some (symbol, level) =>
      let (right, ts) ← operand bound ts.tail
      let (right, ts) ← operators bound right level ts
      return (some (combine symbol left right), ts)
  | none => return (none, ts)

def programPass : Reader (Option Expr) := fun ts => do
  if (← ts.peek).isNone then return (none, ts)
  let (e, ts) ← expression bound ts
  if (← ts.peek).isNone then return (some e, ts)
  let ts ← ts.takeMark ';'
  return (some e, ts)

end Passes

def extend (again : Expr → Reader Expr) (e : Expr) : Option Expr × Tokens → Except ParseError (Expr × Tokens)
  | (none, ts) => .ok (e, ts)
  | (some e', ts) => again e' ts

def collect {α : Type} (again : Reader (List α)) : Option α × Tokens → Except ParseError (List α × Tokens)
  | (none, ts) => .ok ([], ts)
  | (some x, ts) => again ts >>= fun r => .ok (x :: r.1, r.2)

def collectAll (again : Tokens → Except ParseError (List Expr)) :
    Option Expr × Tokens → Except ParseError (List Expr)
  | (none, _) => .ok []
  | (some e, ts) => again ts >>= fun es => .ok (e :: es)

section Loops

variable {α : Type} {stop separator : Char} {item : Reader α} {bound : Nat} {ts : Tokens}

theorem itemsFrom_pass (first : Bool) :
    itemsFrom stop separator item (bound + 1) first ts =
      itemPass stop separator item first ts >>= collect (itemsFrom stop separator item bound false) := by
  refine bind_then fun ahead => ?_
  cases ahead with
  | none => rfl
  | some l =>
      have here (ts : Tokens) :
          (ts.peek >>= fun ahead => if Tokens.isMark stop ahead then pure ([], ts) else item ts >>= fun r =>
            itemsFrom stop separator item bound false r.2 >>= fun r' => pure (r.1 :: r'.1, r'.2)) =
          itemAt stop item ts >>= collect (itemsFrom stop separator item bound false) := by
        refine bind_then fun ahead => ?_
        split
        · rfl
        · exact bind_then fun _ => rfl
      simp only
      split
      · rfl
      · cases first with
        | true => exact here ts
        | false => exact bind_then here

theorem calls_pass (func : Expr) : calls (bound + 1) func ts = callPass bound func ts >>= extend (calls bound) func := by
  rw [calls]
  refine bind_then fun ahead => ?_
  split
  · exact bind_then fun _ => rfl
  · rfl

theorem operators_pass (left : Expr) (floor : Nat) :
    operators (bound + 1) left floor ts =
      operatorPass bound left floor ts >>= extend (fun e => operators bound e floor) left := by
  rw [operators]
  refine bind_then fun ahead => ?_
  cases ahead with
  | none => rfl
  | some l =>
      cases l with
      | operator symbol =>
          cases found : precedence? symbol with
          | none =>
              simp only [above?, found, Option.filter_none, Option.map_none]
              rfl
          | some level =>
              by_cases tighter : floor < level
              · simp only [above?, found, if_pos tighter, Option.filter_some, decide_eq_true tighter, if_true,
                  Option.map_some]
                exact bind_then fun _ => bind_then fun _ => rfl
              · simp only [above?, found, if_neg tighter, Option.filter_some, decide_eq_false tighter]
                rfl
      | _ => rfl

theorem sequence_pass :
    sequence (bound + 2) ts = programPass (bound + 1) ts >>= collectAll (sequence (bound + 1)) := by
  rw [sequence]
  refine bind_then fun ahead => ?_
  split
  · rfl
  · refine bind_then fun r => ?_
    obtain ⟨e, behind⟩ := r
    show behind.peek >>= _ = behind.peek >>= _ >>= _
    cases peeked : behind.peek with
    | error e => rfl
    | ok ahead =>
        cases ahead with
        | none =>
            have ended : sequence (bound + 1) behind = .ok [] := sequence_ok.mpr (.inl ⟨peeked, rfl⟩)
            show _ = sequence (bound + 1) behind >>= _
            rw [ended]
            rfl
        | some l =>
            show behind.takeMark ';' >>= _ = behind.takeMark ';' >>= _ >>= _
            exact bind_then fun _ => rfl

end Loops

section Taking

variable {α : Type}

def Takes (read : Reader α) : Prop := ∀ ts x ts', read ts = .ok (x, ts') → ts'.list.length < ts.list.length

-- A pass gives no token back, and one that does not end its loop has taken some.
def Advances (pass : Reader (Option α)) : Prop :=
  ∀ ts next ts', pass ts = .ok (next, ts') →
    ts'.list.length ≤ ts.list.length ∧ (next.isSome → ts'.list.length < ts.list.length)

theorem Sound.takes {phrase : List Lexeme → α → Prop} {read : Reader α} (sound : Sound phrase read)
    (some : ∀ {u : List Lexeme} {x : α}, phrase u x → u ≠ []) : Takes read := by
  intro ts x ts' given
  obtain ⟨u, ⟨taken, rfl, tokens, _⟩, made⟩ := sound ts x ts' given
  have front : taken ≠ [] := fun empty => some made (by rw [empty, List.map_nil])
  have long := List.length_pos_iff.mpr front
  rw [tokens, List.length_append]
  omega

theorem takes_expression (bound : Nat) : Takes (expression bound) :=
  (allSound bound).expression.takes Phrase.Operation.ne_nil

theorem takes_operand (bound : Nat) : Takes (operand bound) := (allSound bound).operand.takes Phrase.Operand.ne_nil

theorem takes_atom (bound : Nat) : Takes (atom bound) :=
  (allSound bound).atom.takes fun made => (Phrase.Operand.atom made).ne_nil

theorem takes_name : Takes name := by
  intro ts x ts' read
  obtain ⟨ahead, rfl⟩ := name_ok.mp read
  have front := Tokens.length_tail ahead
  omega

theorem takes_binding {f : Reader Expr} (takes : Takes f) : Takes (binding f) := by
  intro ts b ts' read
  obtain ⟨x, init, named, equals, read, _⟩ := binding_ok.mp read
  have front := Tokens.length_tail named
  have sign := Tokens.length_tail equals
  have last := takes _ _ _ read
  omega

section Lists

variable {stop separator : Char} {item : Reader α} (takes : Takes item)

include takes

theorem advances_itemAt : Advances (itemAt stop item) := by
  intro ts next ts' read
  obtain ⟨ahead, _, read⟩ := bind_eq_ok.mp read
  by_cases stopped : Tokens.isMark stop ahead = true
  · rw [if_pos stopped] at read
    cases read
    exact ⟨Nat.le_refl _, by simp⟩
  · rw [if_neg stopped] at read
    obtain ⟨⟨x, behind⟩, read, made⟩ := bind_eq_ok.mp read
    cases made
    have fewer := takes _ _ _ read
    exact ⟨Nat.le_of_lt fewer, fun _ => fewer⟩

theorem advances_itemPass (first : Bool) : Advances (itemPass stop separator item first) := by
  intro ts next ts' read
  obtain ⟨ahead, _, read⟩ := bind_eq_ok.mp read
  cases ahead with
  | none =>
      cases read
      exact ⟨Nat.le_refl _, by simp⟩
  | some l =>
      by_cases stopped : Tokens.isMark stop (some l) = true
      · simp only [if_pos stopped] at read
        cases read
        exact ⟨Nat.le_refl _, by simp⟩
      · simp only [if_neg stopped] at read
        cases first with
        | true => exact advances_itemAt takes _ _ _ read
        | false =>
            obtain ⟨_, taken, read⟩ := bind_eq_ok.mp read
            obtain ⟨separated, rfl⟩ := Tokens.takeMark_ok.mp taken
            have front := Tokens.length_tail separated
            obtain ⟨fewer, _⟩ := advances_itemAt takes _ _ _ read
            exact ⟨by omega, fun _ => by omega⟩

theorem length_itemsFrom {bound : Nat} {first : Bool} {ts ts' : Tokens} {xs : List α}
    (read : itemsFrom stop separator item bound first ts = .ok (xs, ts')) : ts'.list.length ≤ ts.list.length := by
  induction bound generalizing first ts xs with
  | zero => cases read
  | succ bound ih =>
      rw [itemsFrom_pass] at read
      obtain ⟨⟨next, behind⟩, pass, read⟩ := bind_eq_ok.mp read
      obtain ⟨fewer, _⟩ := advances_itemPass takes _ _ _ _ pass
      cases next with
      | none =>
          cases read
          exact fewer
      | some x =>
          obtain ⟨⟨xs, last⟩, others, made⟩ := bind_eq_ok.mp read
          cases made
          exact Nat.le_trans (ih others) fewer

theorem takes_delimited (start : Char) (bound : Nat) : Takes (delimited stop separator item start bound) := by
  intro ts xs ts' read
  obtain ⟨_, taken, read⟩ := bind_eq_ok.mp read
  obtain ⟨opened, rfl⟩ := Tokens.takeMark_ok.mp taken
  obtain ⟨⟨xs, inner⟩, items, read⟩ := bind_eq_ok.mp read
  obtain ⟨_, taken, made⟩ := bind_eq_ok.mp read
  obtain ⟨closed, rfl⟩ := Tokens.takeMark_ok.mp taken
  cases made
  have front := Tokens.length_tail opened
  have inside := length_itemsFrom takes items
  have back := Tokens.length_tail closed
  omega

end Lists

theorem advances_callPass (bound : Nat) (func : Expr) : Advances (callPass bound func) := by
  intro ts next ts' read
  obtain ⟨ahead, _, read⟩ := bind_eq_ok.mp read
  by_cases opened : Tokens.isMark '(' ahead = true
  · rw [if_pos opened] at read
    obtain ⟨⟨args, behind⟩, read, made⟩ := bind_eq_ok.mp read
    cases made
    have fewer := takes_delimited (takes_expression bound) _ _ _ _ _ read
    exact ⟨Nat.le_of_lt fewer, fun _ => fewer⟩
  · rw [if_neg opened] at read
    cases read
    exact ⟨Nat.le_refl _, by simp⟩

theorem advances_programPass (bound : Nat) : Advances (programPass bound) := by
  intro ts next ts' read
  obtain ⟨ahead, _, read⟩ := bind_eq_ok.mp read
  cases ahead with
  | none =>
      cases read
      exact ⟨Nat.le_refl _, by simp⟩
  | some l =>
      obtain ⟨⟨e, behind⟩, first, read⟩ := bind_eq_ok.mp read
      have fewer := takes_expression bound _ _ _ first
      obtain ⟨ahead, _, read⟩ := bind_eq_ok.mp read
      cases ahead with
      | none =>
          cases read
          exact ⟨Nat.le_of_lt fewer, fun _ => fewer⟩
      | some l =>
          obtain ⟨_, taken, made⟩ := bind_eq_ok.mp read
          obtain ⟨separated, rfl⟩ := Tokens.takeMark_ok.mp taken
          cases made
          have front := Tokens.length_tail separated
          exact ⟨by omega, fun _ => by omega⟩

theorem advances_operatorPass_of {bound : Nat}
    (kept : ∀ {left e : Expr} {floor : Nat} {ts ts' : Tokens},
      operators bound left floor ts = .ok (e, ts') → ts'.list.length ≤ ts.list.length)
    (left : Expr) (floor : Nat) : Advances (operatorPass bound left floor) := by
  intro ts next ts' read
  obtain ⟨ahead, peeked, read⟩ := bind_eq_ok.mp read
  cases tight : above? floor ahead with
  | none =>
      rw [tight] at read
      cases read
      exact ⟨Nat.le_refl _, by simp⟩
  | some found =>
      rw [tight] at read
      obtain ⟨l, rfl⟩ := exists_of_above? tight
      obtain ⟨⟨right, behind⟩, first, read⟩ := bind_eq_ok.mp read
      obtain ⟨⟨right', last⟩, second, made⟩ := bind_eq_ok.mp read
      cases made
      have front := Tokens.length_tail peeked
      have fewer := takes_operand bound _ _ _ first
      have same : ts'.list.length ≤ behind.list.length := kept second
      have within : ts'.list.length < ts.list.length := by omega
      exact ⟨Nat.le_of_lt within, fun _ => within⟩

theorem length_operators {bound floor : Nat} {left e : Expr} {ts ts' : Tokens}
    (read : operators bound left floor ts = .ok (e, ts')) : ts'.list.length ≤ ts.list.length := by
  induction bound generalizing left e floor ts ts' with
  | zero => cases read
  | succ bound ih =>
      rw [operators_pass] at read
      obtain ⟨⟨next, behind⟩, pass, read⟩ := bind_eq_ok.mp read
      obtain ⟨fewer, _⟩ := advances_operatorPass_of ih left floor _ _ _ pass
      cases next with
      | none =>
          cases read
          exact fewer
      | some left => exact Nat.le_trans (ih read) fewer

theorem advances_operatorPass (bound : Nat) (left : Expr) (floor : Nat) : Advances (operatorPass bound left floor) :=
  advances_operatorPass_of length_operators left floor

end Taking

end Descent

end Trampoline

import Trampoline.Proofs.Readers

set_option autoImplicit false

namespace Trampoline

namespace Tokens

def after (n : Nat) (ts : Tokens) : Tokens := { ts with list := ts.list.drop n }

def look (ts : Tokens) : Except Char (Option Lexeme) :=
  match ts.list, ts.ending with
  | t :: _, _ => .ok (some t.lexeme)
  | [], .ended _ => .ok none
  | [], .stray c _ => .error c

def SameAhead (n : Nat) (ts ts' : Tokens) : Prop := ∀ k ≤ n, (ts'.after k).look = (ts.after k).look

section Agreement

variable {ts ts' : Tokens} {m n : Nat}

theorem after_after : (ts.after m).after n = ts.after (m + n) := by
  simp only [after, List.drop_drop]

theorem after_tail : ts.tail.after n = ts.after (n + 1) := by
  simp only [after, tail, List.drop_tail]

theorem SameAhead.refl : SameAhead n ts ts := fun _ _ => rfl

theorem SameAhead.le (agree : SameAhead n ts ts') (less : m ≤ n) : SameAhead m ts ts' :=
  fun k low => agree k (Nat.le_trans low less)

theorem SameAhead.look (agree : SameAhead n ts ts') : ts'.look = ts.look := agree 0 (Nat.zero_le n)

theorem SameAhead.after (agree : SameAhead (m + n) ts ts') : SameAhead n (ts.after m) (ts'.after m) := by
  intro k low
  rw [after_after, after_after]
  exact agree (m + k) (by omega)

theorem SameAhead.tail (agree : SameAhead (n + 1) ts ts') : SameAhead n ts.tail ts'.tail := by
  intro k low
  rw [after_tail, after_tail]
  exact agree (k + 1) (by omega)

theorem peek_of_look {ahead : Option Lexeme} (seen : ts.look = .ok ahead) : ts.peek = .ok ahead := by
  obtain ⟨list, ending⟩ := ts
  cases list with
  | cons t _ => cases seen; rfl
  | nil =>
      cases ending with
      | ended _ => cases seen; rfl
      | stray _ _ => cases seen

theorem peek_of_stray {c : Char} (seen : ts.look = .error c) : ts.peek = ts.fault (.strayCharacter c) := by
  obtain ⟨list, ending⟩ := ts
  cases list with
  | cons _ _ => cases seen
  | nil =>
      cases ending with
      | ended _ => cases seen
      | stray _ _ => cases seen; rfl

end Agreement

end Tokens

open Tokens

-- A run that decides after some tokens, with one more ahead. What it gives is made from what it found and the tokens
-- that are left.
def DecidesAhead {α β : Type} (give : α → Tokens → β) (run : Tokens → Except ParseError β) : Prop :=
  ∀ ts, ∃ n, (∃ x, ∀ ts', SameAhead n ts ts' → run ts' = .ok (give x (ts'.after n))) ∨
    ∃ cause : ParseCause, ∀ ts', SameAhead n ts ts' → run ts' = .error (cause.located (ts'.after n).pos)

namespace DecidesAhead

variable {α β γ : Type} {give : α → Tokens → β}

theorem congr {run run' : Tokens → Except ParseError β} (decides : DecidesAhead give run)
    (same : ∀ ts, run' ts = run ts) :
    DecidesAhead give run' := by
  rw [funext same]
  exact decides

theorem ok (x : α) : DecidesAhead give fun ts => .ok (give x ts) := fun _ => ⟨0, .inl ⟨x, fun _ _ => rfl⟩⟩

theorem fault (cause : ParseCause) : DecidesAhead give fun ts => ts.fault cause :=
  fun _ => ⟨0, .inr ⟨cause, fun _ _ => rfl⟩⟩

theorem ite (c : Bool) {run run' : Tokens → Except ParseError β} (yes : DecidesAhead give run)
    (no : DecidesAhead give run') :
    DecidesAhead give fun ts => if c then run ts else run' ts := by
  cases c with
  | true => exact yes
  | false => exact no

theorem tail {run : Tokens → Except ParseError β} (decides : DecidesAhead give run) :
    DecidesAhead give fun ts => run ts.tail := by
  intro ts
  obtain ⟨n, ⟨x, given⟩ | ⟨cause, refused⟩⟩ := decides ts.tail
  · exact ⟨n + 1, .inl ⟨x, fun ts' agree => after_tail ▸ given ts'.tail agree.tail⟩⟩
  · exact ⟨n + 1, .inr ⟨cause, fun ts' agree => after_tail ▸ refused ts'.tail agree.tail⟩⟩

theorem peek {next : Option Lexeme → Tokens → Except ParseError β} (decides : ∀ ahead, DecidesAhead give (next ahead)) :
    DecidesAhead give fun ts => ts.peek >>= fun ahead => next ahead ts := by
  intro ts
  cases seen : ts.look with
  | error c =>
      refine ⟨0, .inr ⟨.strayCharacter c, fun ts' agree => ?_⟩⟩
      show (ts'.peek >>= fun ahead => next ahead ts') = _
      rw [peek_of_stray (agree.look.trans seen)]
      rfl
  | ok ahead =>
      have peeked {n : Nat} {ts' : Tokens} (agree : SameAhead n ts ts') : ts'.peek = .ok ahead :=
        peek_of_look (agree.look.trans seen)
      obtain ⟨n, ⟨x, given⟩ | ⟨cause, refused⟩⟩ := decides ahead ts
      · refine ⟨n, .inl ⟨x, fun ts' agree => ?_⟩⟩
        show (ts'.peek >>= fun ahead => next ahead ts') = _
        rw [peeked agree]
        exact given ts' agree
      · refine ⟨n, .inr ⟨cause, fun ts' agree => ?_⟩⟩
        show (ts'.peek >>= fun ahead => next ahead ts') = _
        rw [peeked agree]
        exact refused ts' agree

theorem bind {read : Descent.Reader γ} {next : γ × Tokens → Except ParseError β} (first : DecidesAhead Prod.mk read)
    (second : ∀ x, DecidesAhead give fun ts => next (x, ts)) : DecidesAhead give fun ts => read ts >>= next := by
  intro ts
  obtain ⟨m, ⟨x, given⟩ | ⟨cause, refused⟩⟩ := first ts
  · obtain ⟨n, ⟨y, given'⟩ | ⟨cause, refused⟩⟩ := second x (ts.after m)
    · refine ⟨m + n, .inl ⟨y, fun ts' agree => ?_⟩⟩
      show read ts' >>= next = _
      rw [given ts' (agree.le (Nat.le_add_right m n)), ← after_after]
      exact given' (ts'.after m) agree.after
    · refine ⟨m + n, .inr ⟨cause, fun ts' agree => ?_⟩⟩
      show read ts' >>= next = _
      rw [given ts' (agree.le (Nat.le_add_right m n)), ← after_after]
      exact refused (ts'.after m) agree.after
  · refine ⟨m, .inr ⟨cause, fun ts' agree => ?_⟩⟩
    show read ts' >>= next = _
    rw [refused ts' agree]
    rfl

theorem map {run : Tokens → Except ParseError α} (decides : DecidesAhead (fun x _ => x) run) (f : α → β) :
    DecidesAhead (fun y _ => y) fun ts => run ts >>= fun x => .ok (f x) := by
  intro ts
  obtain ⟨n, ⟨x, given⟩ | ⟨cause, refused⟩⟩ := decides ts
  · refine ⟨n, .inl ⟨f x, fun ts' agree => ?_⟩⟩
    show (run ts' >>= fun x => .ok (f x)) = _
    rw [given ts' agree]
    rfl
  · refine ⟨n, .inr ⟨cause, fun ts' agree => ?_⟩⟩
    show (run ts' >>= fun x => .ok (f x)) = _
    rw [refused ts' agree]
    rfl

section Taking

variable {next : Tokens → Except ParseError β} (decides : DecidesAhead give next)

include decides

theorem takeIf {take : Tokens → Except ParseError Tokens} {accepts : Option Lexeme → Bool} {cause : ParseCause}
    (shape : ∀ ts, take ts = ts.peek >>= fun ahead => if accepts ahead then pure ts.tail else ts.fault cause) :
    DecidesAhead give fun ts => take ts >>= next := by
  refine (peek fun ahead => .ite (accepts ahead) decides.tail (fault cause)).congr fun ts => ?_
  rw [shape]
  cases ts.peek with
  | error e => rfl
  | ok ahead =>
      simp only [ok_bind]
      split <;> rfl

theorem takeMark (mark : Char) : DecidesAhead give fun ts => ts.takeMark mark >>= next := decides.takeIf fun _ => rfl

theorem takeKeyword (word : Keyword) : DecidesAhead give fun ts => ts.takeKeyword word >>= next :=
  decides.takeIf fun _ => rfl

theorem skipOrTakeMark (skip : Bool) (mark : Char) :
    DecidesAhead give fun ts => if skip then pure ts >>= next else ts.takeMark mark >>= next :=
  .ite skip decides (decides.takeMark mark)

theorem skipOrTakeKeyword (skip : Bool) (word : Keyword) :
    DecidesAhead give fun ts => if skip then pure ts >>= next else ts.takeKeyword word >>= next :=
  .ite skip decides (decides.takeKeyword word)

end Taking

end DecidesAhead

namespace Descent

theorem decides_name : DecidesAhead Prod.mk name := by
  refine .peek fun ahead => ?_
  cases ahead with
  | none => exact .fault _
  | some l =>
      cases l with
      | name x => exact .tail (.ok x)
      | _ => exact .fault _

theorem decides_name? : DecidesAhead Prod.mk name? := by
  refine .peek fun ahead => ?_
  cases ahead with
  | none => exact .ok Option.none
  | some l =>
      cases l with
      | name x => exact .tail (.ok (some x))
      | _ => exact .ok Option.none

section Lists

variable {α : Type} {stop separator : Char} {item : Reader α} (decides : DecidesAhead Prod.mk item)

include decides

theorem decides_itemsFrom (bound : Nat) (first : Bool) :
    DecidesAhead Prod.mk (itemsFrom stop separator item bound first) := by
  induction bound generalizing first with
  | zero => exact .fault _
  | succ bound ih =>
      refine .peek fun ahead => ?_
      cases ahead with
      | none => exact .ok []
      | some l =>
          refine .ite (isMark stop (some l)) (.ok []) ?_
          refine .skipOrTakeMark ?_ first separator
          refine .peek fun ahead => .ite (isMark stop ahead) (.ok []) ?_
          exact decides.bind fun x => (ih false).bind fun xs => .ok (x :: xs)

theorem decides_delimited (start : Char) (bound : Nat) :
    DecidesAhead Prod.mk (delimited stop separator item start bound) := by
  refine .takeMark ?_ start
  exact (decides_itemsFrom decides bound true).bind fun xs => .takeMark (.ok xs) stop

end Lists

section Forms

variable {expression : Reader Expr} (decides : DecidesAhead Prod.mk expression) (bound : Nat)

include decides

theorem decides_binding : DecidesAhead Prod.mk (binding expression) := by
  refine decides_name.bind fun x => .peek fun ahead => ?_
  cases ahead with
  | none => exact .fault _
  | some l =>
      cases l with
      | operator symbol =>
          by_cases equals : symbol = "="
          · subst equals
            exact .tail (decides.bind fun init => .ok (Binding.mk x init))
          · refine (DecidesAhead.fault (.expectedEquals symbol)).congr fun ts => ?_
            split
            · rename_i same
              cases same
              exact absurd rfl equals
            · rfl
      | _ => exact .fault _

theorem decides_group : DecidesAhead Prod.mk (group expression) := by
  refine .takeMark ?_ '('
  exact decides.bind fun e => .takeMark (.ok e) ')'

theorem decides_block : DecidesAhead Prod.mk (block expression bound) :=
  (decides_delimited decides '\x7b' bound).bind fun items => .ok (Expr.block items)

theorem decides_conditional : DecidesAhead Prod.mk (conditional expression) := by
  refine .takeKeyword ?_ .if_
  refine decides.bind fun test => .peek fun ahead => ?_
  refine .skipOrTakeKeyword ?_ (isMark '\x7b' ahead) .then_
  refine decides.bind fun yes => .peek fun ahead => .ite (isKeyword .else_ ahead) ?_ (.ok (Expr.cond test yes .hole))
  exact .tail (decides.bind fun no => .ok (Expr.cond test yes no))

theorem decides_function : DecidesAhead Prod.mk (function expression bound) := by
  refine .tail (decides_name?.bind fun self => ?_)
  exact (decides_delimited decides_name '(' bound).bind fun params =>
    decides.bind fun body => .ok (Expr.lambda params body self)

theorem decides_letForm : DecidesAhead Prod.mk (letForm expression bound) := by
  refine .tail (decides_name?.bind fun self => ?_)
  refine (decides_delimited (decides_binding decides) '(' bound).bind fun bindings => decides.bind fun body => ?_
  cases self with
  | none => exact .ok (Expr.letIn bindings body)
  | some x => exact .ok (Expr.namedLet x bindings body)

theorem decides_atomForm : DecidesAhead Prod.mk (atomForm expression bound) := by
  refine .peek fun ahead => ?_
  cases ahead with
  | none => exact .fault _
  | some l =>
      cases l with
      | punctuation mark =>
          by_cases round : mark = '('
          · subst round
            exact decides_group decides
          by_cases curly : mark = '\x7b'
          · subst curly
            exact decides_block decides bound
          refine (DecidesAhead.fault (.unexpectedLexeme (.punctuation mark))).congr fun ts => ?_
          split <;> simp_all
      | number x => exact .tail (.ok (Expr.num x))
      | text s => exact .tail (.ok (Expr.str s))
      | name x => exact .tail (.ok (Expr.var x))
      | operator symbol => exact .fault _
      | keyword word =>
          cases word with
          | let_ => exact decides_letForm decides bound
          | if_ => exact decides_conditional decides
          | then_ => exact .fault _
          | else_ => exact .fault _
          | lambda => exact decides_function decides bound
          | lambdaSign => exact decides_function decides bound
          | true_ => exact .tail (.ok (Expr.bool true))
          | false_ => exact .tail (.ok (Expr.bool false))

end Forms

structure AllDecide (bound : Nat) : Prop where
  expression : DecidesAhead Prod.mk (expression bound)
  operators : ∀ left floor, DecidesAhead Prod.mk (operators bound left floor)
  operand : DecidesAhead Prod.mk (operand bound)
  calls : ∀ func, DecidesAhead Prod.mk (calls bound func)
  atom : DecidesAhead Prod.mk (atom bound)

namespace AllDecide

variable {bound : Nat} (all : AllDecide bound)

include all

theorem decides_operators (left : Expr) (floor : Nat) :
    DecidesAhead Prod.mk (Descent.operators (bound + 1) left floor) := by
  refine .peek fun ahead => ?_
  cases ahead with
  | none => exact .ok left
  | some l =>
      cases l with
      | operator symbol =>
          cases found : precedence? symbol with
          | none =>
              simp only [found]
              exact .ok left
          | some level =>
              by_cases tighter : floor < level
              · simp only [found, if_pos tighter]
                exact .tail (all.operand.bind fun right => (all.operators right level).bind fun right =>
                  all.operators (combine symbol left right) floor)
              · simp only [found, if_neg tighter]
                exact .ok left
      | _ => exact .ok left

theorem decides_calls (func : Expr) : DecidesAhead Prod.mk (Descent.calls (bound + 1) func) := by
  refine .peek fun ahead => .ite (isMark '(' ahead) ?_ (.ok func)
  exact (decides_delimited all.expression '(' bound).bind fun args => all.calls (.call func args)

theorem succ : AllDecide (bound + 1) where
  expression := all.operand.bind fun left => all.operators left 0
  operators := all.decides_operators
  operand := all.atom.bind fun e => all.calls e
  calls := all.decides_calls
  atom := decides_atomForm all.expression bound

end AllDecide

theorem allDecide (bound : Nat) : AllDecide bound := by
  induction bound with
  | zero => exact ⟨.fault _, fun _ _ => .fault _, .fault _, fun _ => .fault _, .fault _⟩
  | succ bound all => exact all.succ

theorem decides_sequence (bound : Nat) : DecidesAhead (fun es _ => es) (sequence bound) := by
  induction bound with
  | zero => exact .fault _
  | succ bound ih =>
      refine .peek fun ahead => ?_
      cases ahead with
      | none => exact .ok []
      | some _ =>
          refine (allDecide bound).expression.bind fun e => .peek fun ahead => ?_
          cases ahead with
          | none => exact .ok [e]
          | some _ => exact .takeMark (ih.map (e :: ·)) ';'

end Descent

end Trampoline

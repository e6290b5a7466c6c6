import Trampoline.Proofs.Evaluable
import Trampoline.Proofs.FrontEnds
import Trampoline.Proofs.Phrases

set_option autoImplicit false

namespace Trampoline

def Operator.IsSymbol (symbol : String) : Prop := (ofSymbol? symbol).isSome = true

abbrev Expr.Meant (e : Expr) : Prop := e.Evaluable Operator.IsSymbol

def Binding.Meant (b : Binding) : Prop := b.init.Meant

namespace Expr

variable {known : String → Prop}

theorem evaluable_block {items : List Expr} (code : ∀ e ∈ items, e.Evaluable known) :
    (block items).Evaluable known := by
  match items with
  | [] => trivial
  | [e] => exact code e (by simp)
  | e :: e' :: es => exact (exprsEvaluable_iff _).mpr code

theorem meant_letIn {bindings : List Binding} {body : Expr} (inits : ∀ b ∈ bindings, b.Meant)
    (code : body.Meant) : (letIn bindings body).Meant := by
  refine ⟨?_, code⟩
  induction bindings with
  | nil => trivial
  | cons b bindings ih =>
      obtain ⟨name, init⟩ := b
      obtain ⟨first, others⟩ := List.forall_mem_cons.mp inits
      exact ⟨.inr first, ih others⟩

theorem meant_namedLet {x : String} {bindings : List Binding} {body : Expr}
    (inits : ∀ b ∈ bindings, b.Meant) (code : body.Meant) : (namedLet x bindings body).Meant := by
  refine ⟨code, (exprsEvaluable_iff _).mpr ?_⟩
  intro e member
  obtain ⟨b, listed, rfl⟩ := List.mem_map.mp member
  exact inits b listed

end Expr

namespace Phrase

theorem Level.isSymbol {level : Level} {symbol : String} (other : level ≠ .assignment)
    (member : symbol ∈ level.symbols) : Operator.IsSymbol symbol := by
  have listed : ∀ s ∈ level.symbols, Operator.IsSymbol s := by
    unfold Operator.IsSymbol
    cases level with
    | assignment => exact absurd rfl other
    | _ => decide
  exact listed symbol member

mutual

theorem Operation.meant {level : Level} {u : List Lexeme} {e : Expr} : Operation level u e → e.Meant
  | .operand operand => operand.meant
  | .tighter _ operation => operation.meant
  | .assignment _ value => value.meant
  | .binary other member _ left right => ⟨Level.isSymbol other member, left.meant, right.meant⟩

theorem Operand.meant {u : List Lexeme} {e : Expr} : Operand u e → e.Meant
  | .atom atom => atom.meant
  | .call func args => ⟨func.meant, (exprsEvaluable_iff _).mpr (meant_items args)⟩

theorem Atom.meant {u : List Lexeme} {e : Expr} : Atom u e → e.Meant
  | .number _ => trivial
  | .text _ => trivial
  | .name _ => trivial
  | .yes => trivial
  | .no => trivial
  | .group inner => inner.meant
  | .nothing => trivial
  | .single item => meant_items item _ (by simp)
  | .block items => (exprsEvaluable_iff _).mpr (meant_items items)
  | .conditional test branch other => ⟨test.meant, branch.meant, other.meant⟩
  | .function _ _ _ body => body.meant
  | .letIn bindings body => Expr.meant_letIn (meant_bindings bindings) body.meant
  | .namedLet bindings body => Expr.meant_namedLet (meant_bindings bindings) body.meant

theorem Branch.meant {u : List Lexeme} {e : Expr} : Branch u e → e.Meant
  | .led operation => operation.meant
  | .braced operation => operation.meant

theorem Otherwise.meant {u : List Lexeme} {e : Expr} : Otherwise u e → e.isHole = true ∨ e.Meant
  | .none => .inl rfl
  | .led operation => .inr operation.meant

theorem Bound.meant {u : List Lexeme} {b : Binding} : Bound u b → b.Meant
  | .bound operation => operation.meant

theorem meant_items {separator : Lexeme} {u : List Lexeme} {es : List Expr} :
    Separated (Operation .assignment) u es separator → ∀ e ∈ es, e.Meant
  | .none => by simp
  | .last operation => List.forall_mem_singleton.mpr operation.meant
  | .more operation rest => List.forall_mem_cons.mpr ⟨operation.meant, meant_items rest⟩

theorem meant_bindings {separator : Lexeme} {u : List Lexeme} {bs : List Binding} :
    Separated Bound u bs separator → ∀ b ∈ bs, b.Meant
  | .none => by simp
  | .last bound => List.forall_mem_singleton.mpr bound.meant
  | .more bound rest => List.forall_mem_cons.mpr ⟨bound.meant, meant_bindings rest⟩

end

end Phrase

theorem Descent.parse_meant {source : String} {e : Expr} (accepted : Descent.parse source = .ok e) :
    e.Meant := by
  rw [parse, program] at accepted
  cases read : sequence (boundFor (.ofSource source)) (.ofSource source) with
  | error fault =>
      rw [read] at accepted
      cases accepted
  | ok es =>
      rw [read] at accepted
      cases accepted
      exact (exprsEvaluable_iff es).mpr (Phrase.meant_items (sound_sequence read).2)

namespace Grammar

def Lookahead.Meant : Lookahead → Prop
  | .terminal found =>
      (precedence? found.terminal).isSome = true →
        found.terminal = .equal ∨ Operator.IsSymbol (String.ofList found.text)
  | .ended _ => True

theorem Recognised.meant {terminal : Terminal} {cs slice : List Char}
    (recognised : Recognised terminal cs slice) (operator : (precedence? terminal).isSome = true) :
    terminal = .equal ∨ Operator.IsSymbol (String.ofList slice) := by
  cases recognised with
  | name | number | text => cases operator
  | keyword word => cases word <;> cases operator
  | @sign _ entry member front =>
      have listed : ∀ entry ∈ operatorTable ++ markTable, (precedence? entry.2).isSome = true →
          entry.2 = .equal ∨ Operator.IsSymbol (String.ofList entry.1.toList) := by
        unfold Operator.IsSymbol
        decide
      exact listed entry member operator

theorem look_meant {context : Context} {cursor cursor' : Cursor} {last : Position} {ahead : Lookahead}
    (looked : look context cursor last = .ok (ahead, cursor')) : ahead.Meant := by
  rcases look_ok.mp looked with ⟨_, rfl, _⟩ | ⟨_, _, found, rfl, _⟩
  · trivial
  · exact (recognised found).meant

theorem State.shift_meant {s s' : State} {context : Context} (shifted : s.shift context = .ok s') :
    s'.ahead.Meant := by
  obtain ⟨ahead, cursor, looked, rfl⟩ := State.shift_ok.mp shifted
  exact look_meant looked

theorem State.take_meant {s s' : State} {terminal : Terminal} {context : Context}
    (taken : s.take terminal context = .ok s') : s'.ahead.Meant :=
  State.shift_meant (State.take_ok.mp taken).2

def ReadsMeant {α : Type} (post : α → Prop) (g : Reader α) : Prop :=
  ∀ {s s' : State} {a : α}, s.ahead.Meant → g s = .ok (a, s') → post a ∧ s'.ahead.Meant

section Forms

variable {s s' : State} {f : Reader Expr} {bound : Nat}

theorem Listed.meant {α : Type} {post : α → Prop} {stop separator : Terminal} {next : Context}
    {item : Reader α} {xs : List α} (gives : ReadsMeant post item) (meant : s.ahead.Meant)
    (listed : Listed stop separator next item s xs s') : (∀ x ∈ xs, post x) ∧ s'.ahead.Meant := by
  induction listed with
  | none => exact ⟨by simp, meant⟩
  | last _ read _ =>
      obtain ⟨promised, behind⟩ := gives meant read
      exact ⟨List.forall_mem_singleton.mpr promised, behind⟩
  | more _ read _ shifted _ ih =>
      obtain ⟨others, behind⟩ := ih (State.shift_meant shifted)
      exact ⟨List.forall_mem_cons.mpr ⟨(gives meant read).1, others⟩, behind⟩

theorem itemsFrom_gives {α : Type} {post : α → Prop} {stop separator : Terminal} {next : Context}
    {item : Reader α} (gives : ReadsMeant post item) :
    ReadsMeant (fun xs => ∀ x ∈ xs, post x) (itemsFrom stop separator next item bound) :=
  fun meant read => (listed_of_itemsFrom read).meant gives meant

theorem arguments_gives (gives : ReadsMeant Expr.Meant f) :
    ReadsMeant (fun args => ∀ e ∈ args, e.Meant) (arguments f bound) := by
  intro s s' args _ read
  obtain ⟨opened, inner, first, items, last⟩ := arguments_ok.mp read
  exact ⟨(itemsFrom_gives gives (State.take_meant first) items).1, State.take_meant last⟩

theorem block_gives (gives : ReadsMeant Expr.Meant f) : ReadsMeant Expr.Meant (block f bound) := by
  intro s s' e _ read
  obtain ⟨items, opened, inner, first, listed, last, rfl⟩ := block_ok.mp read
  exact ⟨Expr.evaluable_block (itemsFrom_gives gives (State.take_meant first) listed).1,
    State.take_meant last⟩

theorem group_gives (gives : ReadsMeant Expr.Meant f) : ReadsMeant Expr.Meant (group f) := by
  intro s s' e _ read
  obtain ⟨opened, inner, first, within, last⟩ := group_ok.mp read
  exact ⟨(gives (State.take_meant first) within).1, State.take_meant last⟩

theorem Branch.meant (gives : ReadsMeant Expr.Meant f) {yes : Expr} (meant : s.ahead.Meant)
    (branch : Branch f bound s yes s') : yes.Meant ∧ s'.ahead.Meant := by
  rcases branch with ⟨_, read⟩ | ⟨next, taken, read⟩
  · exact block_gives gives meant read
  · exact gives (State.take_meant taken) read

theorem Otherwise.meant (gives : ReadsMeant Expr.Meant f) {no : Expr} (meant : s.ahead.Meant)
    (otherwise : Otherwise f s no s') : (no.isHole = true ∨ no.Meant) ∧ s'.ahead.Meant := by
  rcases otherwise with ⟨next, taken, read⟩ | ⟨_, rfl, rfl⟩
  · obtain ⟨code, behind⟩ := gives (State.take_meant taken) read
    exact ⟨.inr code, behind⟩
  · exact ⟨.inl rfl, meant⟩

theorem conditional_gives (gives : ReadsMeant Expr.Meant f) : ReadsMeant Expr.Meant (conditional f bound) := by
  intro s s' e _ read
  obtain ⟨test, yes, no, first, after, behind, taken, tested, branch, otherwise, rfl⟩ :=
    conditional_ok.mp read
  obtain ⟨tests, next⟩ := gives (State.take_meant taken) tested
  obtain ⟨yes', next⟩ := branch.meant gives next
  obtain ⟨no', next⟩ := otherwise.meant gives next
  exact ⟨⟨tests, yes', no'⟩, next⟩

theorem param_gives : ReadsMeant (fun _ => True) param :=
  fun _ read => ⟨trivial, State.take_meant (param_ok.mp read).1⟩

theorem binding_gives (gives : ReadsMeant Expr.Meant f) : ReadsMeant Binding.Meant (binding f) := by
  intro s s' b _ read
  obtain ⟨named, equals, init, first, second, given, rfl⟩ := binding_ok.mp read
  exact gives (State.take_meant second) given

theorem Bound.meant {α : Type} {post : α → Prop} {item : Reader α} {self : Option String} {xs : List α}
    {body : Expr} (gives : ReadsMeant Expr.Meant f) (items : ReadsMeant post item)
    (bounded : Bound f item bound s self xs body s') :
    (∀ x ∈ xs, post x) ∧ body.Meant ∧ s'.ahead.Meant := by
  obtain ⟨first, head, opened, inner, last, _, _, start, listed, stop, read⟩ := bounded
  exact ⟨(itemsFrom_gives items (State.take_meant start) listed).1, gives (State.take_meant stop) read⟩

theorem function_gives (gives : ReadsMeant Expr.Meant f) : ReadsMeant Expr.Meant (function f bound) := by
  intro s s' e _ read
  obtain ⟨self, params, body, bounded, rfl⟩ := function_ok.mp read
  exact (bounded.meant gives param_gives).2

theorem letForm_gives (gives : ReadsMeant Expr.Meant f) : ReadsMeant Expr.Meant (letForm f bound) := by
  intro s s' e _ read
  obtain ⟨self, bindings, body, bounded, rfl⟩ := letForm_ok.mp read
  obtain ⟨inits, code, behind⟩ := bounded.meant gives (binding_gives gives)
  cases self with
  | none => exact ⟨Expr.meant_letIn inits code, behind⟩
  | some x => exact ⟨Expr.meant_namedLet inits code, behind⟩

theorem leaf_gives {e : Expr} (code : e.Meant) : ReadsMeant Expr.Meant (leaf e) := by
  intro s s' e' _ read
  obtain ⟨shifted, rfl⟩ := leaf_ok.mp read
  exact ⟨code, State.shift_meant shifted⟩

theorem atomForm_gives (gives : ReadsMeant Expr.Meant f) : ReadsMeant Expr.Meant (atomForm f bound) := by
  intro s s' e meant read
  unfold atomForm at read
  split at read
  · exact group_gives gives meant read
  · exact block_gives gives meant read
  · exact conditional_gives gives meant read
  · exact function_gives gives meant read
  · exact function_gives gives meant read
  · exact letForm_gives gives meant read
  · exact leaf_gives (by trivial) meant read
  · exact leaf_gives (by trivial) meant read
  · exact leaf_gives (by trivial) meant read
  · exact leaf_gives (by trivial) meant read
  · exact leaf_gives (by trivial) meant read
  · exact absurd read (unexpected_ne _ _)

theorem combine_meant {found : Located} {left right : Expr} (meant : (Lookahead.terminal found).Meant)
    (operator : (precedence? found.terminal).isSome = true) (first : left.Meant) (second : right.Meant) :
    (combine found.terminal found.text left right).Meant := by
  unfold combine
  split
  · exact second
  · rename_i other
    exact ⟨(meant operator).resolve_left other, first, second⟩

end Forms

structure AllReadMeant (bound : Nat) : Prop where
  expression : ReadsMeant Expr.Meant (expression bound)
  operand : ReadsMeant Expr.Meant (operand bound)
  atom : ReadsMeant Expr.Meant (atom bound)
  operators : ∀ left floor, left.Meant → ReadsMeant Expr.Meant (operators bound left floor)
  calls : ∀ func, func.Meant → ReadsMeant Expr.Meant (calls bound func)

theorem all_give (bound : Nat) : AllReadMeant bound := by
  induction bound with
  | zero => exact ⟨nofun, nofun, nofun, fun _ _ _ _ _ _ _ => nofun, fun _ _ _ _ _ _ => nofun⟩
  | succ bound ih =>
      refine ⟨?_, ?_, ?_, ?_, ?_⟩
      · intro s s' e meant read
        obtain ⟨left, next, first, rest⟩ := expression_ok.mp read
        obtain ⟨code, behind⟩ := ih.operand meant first
        exact ih.operators left 0 code behind rest
      · intro s s' e meant read
        obtain ⟨func, next, first, rest⟩ := operand_ok.mp read
        obtain ⟨code, behind⟩ := ih.atom meant first
        exact ih.calls func code behind rest
      · exact atomForm_gives ih.expression
      · intro left floor code s s' e meant read
        rcases operators_cases read with ⟨_, rfl, rfl⟩ | ⟨found, level, ahead, known, above⟩
        · exact ⟨code, meant⟩
        · obtain ⟨next, right, behind, right', behind', shifted, first, others, rest⟩ :=
            (operators_go ahead known above).mp read
          obtain ⟨operand, meant'⟩ := ih.operand (State.shift_meant shifted) first
          obtain ⟨tighter, meant'⟩ := ih.operators right level operand meant' others
          rw [ahead] at meant
          exact ih.operators _ floor (combine_meant meant (by simp [known]) code tighter) meant' rest
      · intro func code s s' e meant read
        rcases calls_ok.mp read with ⟨_, rfl, rfl⟩ | ⟨args, next, first, rest⟩
        · exact ⟨code, meant⟩
        · obtain ⟨items, behind⟩ := arguments_gives ih.expression meant first
          exact ih.calls (.call func args) ⟨code, (exprsEvaluable_iff args).mpr items⟩ behind rest

theorem sequence_gives {bound : Nat} : ReadsMeant (fun es => ∀ e ∈ es, e.Meant) (sequence bound) := by
  induction bound with
  | zero => exact nofun
  | succ bound ih =>
      intro s s' es meant read
      rcases sequence_ok.mp read with ⟨_, rfl, rfl⟩ | ⟨e, behind, _, first, rest⟩
      · exact ⟨by simp, meant⟩
      · obtain ⟨code, next⟩ := (all_give bound).expression meant first
        rcases rest with ⟨_, rfl, rfl⟩ | ⟨again, others, taken, more, rfl⟩
        · exact ⟨List.forall_mem_singleton.mpr code, next⟩
        · obtain ⟨items, last⟩ := ih (State.take_meant taken) more
          exact ⟨List.forall_mem_cons.mpr ⟨code, items⟩, last⟩

theorem parse_meant {source : String} {e : Expr} (accepted : FrontEnd.grammar.parse source = .ok e) :
    e.Meant := by
  obtain ⟨terminals, accepted⟩ := FrontEnd.grammar_parse_ok.mp accepted
  obtain ⟨s, start, rest⟩ := bind_eq_ok.mp accepted
  obtain ⟨⟨es, s'⟩, made, result⟩ := bind_eq_ok.mp rest
  cases result
  obtain ⟨⟨ahead, cursor⟩, looked, same⟩ := bind_eq_ok.mp start
  cases same
  exact (exprsEvaluable_iff es).mpr (sequence_gives (look_meant looked) made).1

end Grammar

theorem FrontEnd.parse_meant {frontEnd : FrontEnd} {source : String} {e : Expr}
    (accepted : frontEnd.parse source = .ok e) : e.Meant := by
  cases frontEnd with
  | descent => exact Descent.parse_meant accepted
  | grammar => exact Grammar.parse_meant accepted

end Trampoline

import Trampoline.Proofs.Chains
import Trampoline.Proofs.Spelling

set_option autoImplicit false

namespace Trampoline

def Lexeme.Proper (l : Lexeme) : Prop := ∃ u, l.Spelled u

namespace Expr

def IsName (x : String) : Prop := (Lexeme.name x).Proper

def IsNumber (x : Float) : Prop := (Lexeme.number x).Proper

def binarySymbols : List String :=
  ["||", "&&", "<", ">", "<=", ">=", "==", "!=", "+", "-", "*", "/", "%"]

end Expr

mutual

def Expr.WellFormed : Expr → Prop
  | .hole => False
  | .num x => Expr.IsNumber x
  | .str _ => True
  | .bool _ => True
  | .var x => Expr.IsName x
  | .lambda params body self =>
      (∀ x ∈ params, Expr.IsName x) ∧ (∀ x, self = some x → Expr.IsName x) ∧ body.WellFormed
  | .call func args => func.WellFormed ∧ exprsWellFormed args
  | .cond test yes no => test.WellFormed ∧ yes.WellFormed ∧ (no.isHole = true ∨ no.WellFormed)
  | .assign target value => target.WellFormed ∧ value.WellFormed
  | .binary op left right => op ∈ Expr.binarySymbols ∧ left.WellFormed ∧ right.WellFormed
  | .prog body => 2 ≤ body.length ∧ exprsWellFormed body
  | .letIn bindings body => bindingsWellFormed bindings ∧ body.WellFormed
  | .binding _ => False

def exprsWellFormed : List Expr → Prop
  | [] => True
  | e :: es => e.WellFormed ∧ exprsWellFormed es

def bindingsWellFormed : List Binding → Prop
  | [] => True
  | .mk x init :: bindings => (Expr.IsName x ∧ init.WellFormed) ∧ bindingsWellFormed bindings

end

def Binding.WellFormed (b : Binding) : Prop := Expr.IsName b.name ∧ b.init.WellFormed

theorem exprsWellFormed_iff (es : List Expr) : exprsWellFormed es ↔ ∀ e ∈ es, e.WellFormed := by
  induction es with
  | nil => simp [exprsWellFormed]
  | cons e es ih => simp [exprsWellFormed, ih]

theorem bindingsWellFormed_iff (bs : List Binding) : bindingsWellFormed bs ↔ ∀ b ∈ bs, b.WellFormed := by
  induction bs with
  | nil => simp [bindingsWellFormed]
  | cons b bs ih =>
      obtain ⟨x, init⟩ := b
      simp [bindingsWellFormed, ih, Binding.WellFormed, Binding.name, Binding.init]

theorem Expr.wellFormed_namedLet {x : String} {bindings : List Binding} {body : Expr} (named : IsName x)
    (bound : ∀ b ∈ bindings, b.WellFormed) (code : body.WellFormed) : (namedLet x bindings body).WellFormed := by
  refine ⟨⟨?_, ?_, code⟩, (exprsWellFormed_iff _).mpr ?_⟩
  · intro y member
    obtain ⟨b, listed, rfl⟩ := List.mem_map.mp member
    exact (bound b listed).1
  · intro y same
    exact Option.some.inj same ▸ named
  · intro init member
    obtain ⟨b, listed, rfl⟩ := List.mem_map.mp member
    exact (bound b listed).2

namespace Phrase

theorem Level.binary {level : Level} {symbol : String} (other : level ≠ .assignment)
    (member : symbol ∈ level.symbols) : symbol ∈ Expr.binarySymbols := by
  have listed : ∀ s ∈ level.symbols, s ∈ Expr.binarySymbols := by
    cases level with
    | assignment => exact absurd rfl other
    | _ => decide
  exact listed symbol member

abbrev Proper (u : List Lexeme) : Prop := ∀ l ∈ u, l.Proper

section Properness

variable {u v : List Lexeme} {l : Lexeme}

theorem proper_append : Proper (u ++ v) ↔ Proper u ∧ Proper v := List.forall_mem_append

theorem proper_cons : Proper (l :: u) ↔ l.Proper ∧ Proper u := List.forall_mem_cons

end Properness

theorem Name.wellFormed {u : List Lexeme} {x : String} (named : Name u x) (proper : Proper u) : Expr.IsName x := by
  cases named with
  | name x => exact proper _ List.mem_cons_self

theorem SelfName.wellFormed {u : List Lexeme} {self : Option String} (named : SelfName u self)
    (proper : Proper u) : ∀ x, self = some x → Expr.IsName x := by
  intro x same
  subst same
  cases named with
  | name x => exact proper _ List.mem_cons_self

theorem wellFormed_names {separator : Lexeme} {u : List Lexeme} {xs : List String}
    (names : Separated Name u xs separator) (proper : Proper u) : ∀ x ∈ xs, Expr.IsName x := by
  induction names with
  | none => simp
  | last name => exact List.forall_mem_singleton.mpr (name.wellFormed proper)
  | more name _ ih =>
      obtain ⟨first, others⟩ := proper_append.mp proper
      exact List.forall_mem_cons.mpr ⟨name.wellFormed first, ih (proper_cons.mp others).2⟩

mutual

theorem Operation.wellFormed {level : Level} {u : List Lexeme} {e : Expr} :
    Operation level u e → Proper u → e.WellFormed
  | .operand operand, proper => operand.wellFormed proper
  | .tighter _ operation, proper => operation.wellFormed proper
  | .assignment target value, proper => by
      obtain ⟨first, second⟩ := proper_append.mp proper
      exact ⟨target.wellFormed first, value.wellFormed (proper_cons.mp second).2⟩
  | .binary other member _ left right, proper => by
      obtain ⟨first, second⟩ := proper_append.mp proper
      exact ⟨Level.binary other member, left.wellFormed first, right.wellFormed (proper_cons.mp second).2⟩

theorem Operand.wellFormed {u : List Lexeme} {e : Expr} : Operand u e → Proper u → e.WellFormed
  | .atom atom, proper => atom.wellFormed proper
  | .call func args, proper => by
      obtain ⟨first, second⟩ := proper_append.mp proper
      obtain ⟨inside, _⟩ := proper_append.mp (proper_cons.mp second).2
      exact ⟨func.wellFormed first, (exprsWellFormed_iff _).mpr (wellFormed_items args inside)⟩

theorem Atom.wellFormed {u : List Lexeme} {e : Expr} : Atom u e → Proper u → e.WellFormed
  | .number _, proper => proper _ List.mem_cons_self
  | .text _, _ => trivial
  | .name _, proper => proper _ List.mem_cons_self
  | .yes, _ => trivial
  | .no, _ => trivial
  | .group inner, proper => inner.wellFormed (proper_append.mp (proper_cons.mp proper).2).1
  | .nothing, _ => trivial
  | .single item, proper =>
      wellFormed_items item (proper_append.mp (proper_cons.mp proper).2).1 _ List.mem_cons_self
  | .block items, proper => by
      have inside := (proper_append.mp (proper_cons.mp proper).2).1
      exact ⟨by simp, (exprsWellFormed_iff _).mpr (wellFormed_items items inside)⟩
  | .conditional test branch other, proper => by
      obtain ⟨first, behind⟩ := proper_append.mp (proper_cons.mp proper).2
      obtain ⟨second, third⟩ := proper_append.mp behind
      exact ⟨test.wellFormed first, branch.wellFormed second, other.wellFormed third⟩
  | .function _ self params body, proper => by
      obtain ⟨first, behind⟩ := proper_append.mp (proper_cons.mp proper).2
      obtain ⟨second, third⟩ := proper_append.mp (proper_cons.mp behind).2
      exact ⟨wellFormed_names params second, self.wellFormed first, body.wellFormed (proper_cons.mp third).2⟩
  | .letIn bindings body, proper => by
      obtain ⟨first, behind⟩ := proper_append.mp (proper_cons.mp (proper_cons.mp proper).2).2
      exact ⟨(bindingsWellFormed_iff _).mpr (wellFormed_bindings bindings first),
        body.wellFormed (proper_cons.mp behind).2⟩
  | .namedLet bindings body, proper => by
      obtain ⟨named, behind⟩ := proper_cons.mp (proper_cons.mp proper).2
      obtain ⟨first, behind⟩ := proper_append.mp (proper_cons.mp behind).2
      exact Expr.wellFormed_namedLet named (wellFormed_bindings bindings first)
        (body.wellFormed (proper_cons.mp behind).2)

theorem Branch.wellFormed {u : List Lexeme} {e : Expr} : Branch u e → Proper u → e.WellFormed
  | .led operation, proper => operation.wellFormed (proper_cons.mp proper).2
  | .braced operation, proper => operation.wellFormed proper

theorem Otherwise.wellFormed {u : List Lexeme} {e : Expr} :
    Otherwise u e → Proper u → e.isHole = true ∨ e.WellFormed
  | .none, _ => .inl rfl
  | .led operation, proper => .inr (operation.wellFormed (proper_cons.mp proper).2)

theorem Bound.wellFormed {u : List Lexeme} {b : Binding} : Bound u b → Proper u → b.WellFormed
  | .bound operation, proper => by
      obtain ⟨named, behind⟩ := proper_cons.mp proper
      exact ⟨named, operation.wellFormed (proper_cons.mp behind).2⟩

theorem wellFormed_items {separator : Lexeme} {u : List Lexeme} {es : List Expr} :
    Separated (Operation .assignment) u es separator → Proper u → ∀ e ∈ es, e.WellFormed
  | .none, _ => by simp
  | .last operation, proper => List.forall_mem_singleton.mpr (operation.wellFormed proper)
  | .more operation rest, proper => by
      obtain ⟨first, others⟩ := proper_append.mp proper
      exact List.forall_mem_cons.mpr
        ⟨operation.wellFormed first, wellFormed_items rest (proper_cons.mp others).2⟩

theorem wellFormed_bindings {separator : Lexeme} {u : List Lexeme} {bs : List Binding} :
    Separated Bound u bs separator → Proper u → ∀ b ∈ bs, b.WellFormed
  | .none, _ => by simp
  | .last bound, proper => List.forall_mem_singleton.mpr (bound.wellFormed proper)
  | .more bound rest, proper => by
      obtain ⟨first, others⟩ := proper_append.mp proper
      exact List.forall_mem_cons.mpr
        ⟨bound.wellFormed first, wellFormed_bindings rest (proper_cons.mp others).2⟩

end

end Phrase

end Trampoline

import Mathlib.Data.List.Forall2
import Trampoline.Proofs.Stores

/-!
Sites in the text of a program and the binders around them. An environment fits a site if its chain
has exactly the scopes of these binders and then the root. Where the environment fits, names are found
where the text binds them.
-/

set_option autoImplicit false

namespace Trampoline

inductive Part where
  | value
  | left
  | right
  | test
  | yes
  | no
  | func
  | arg (i : Nat)
  | item (i : Nat)
  | init (i : Nat)
  | body
deriving DecidableEq, Repr

def Expr.part? : Expr → Part → Option Expr
  | .assign _ value, .value => some value
  | .binary _ left _, .left => some left
  | .binary _ _ right, .right => some right
  | .cond test _ _, .test => some test
  | .cond _ yes _, .yes => some yes
  | .cond _ _ no, .no => some no
  | .call func _, .func => some func
  | .call _ args, .arg i => args[i]?
  | .prog body, .item i => body[i]?
  | .letIn bindings _, .init i => (bindings[i]?).map Binding.init
  | .letIn _ body, .body => some body
  | .lambda _ body _, .body => some body
  | _, _ => none

inductive Site where
  | program (e : Expr)
  | part (around : Site) (p : Part)

inductive Bond where
  | self
  | params
  | binding (i : Nat)
deriving DecidableEq, Repr

structure Binder where
  site : Site
  bond : Bond
  names : List String

namespace Binder

def ofName (site : Site) (name : Option String) : List Binder :=
  if (name.getD "").isEmpty then [] else [⟨site, .self, [name.getD ""]⟩]

def ofBindings (site : Site) (bindings : List Binding) : List Binder :=
  (bindings.zipIdx.map fun b => ⟨site, .binding b.2, [b.1.name]⟩).reverse

theorem ofBindings_append (site : Site) (bindings : List Binding) (b : Binding) :
    ofBindings site (bindings ++ [b]) =
      ⟨site, .binding bindings.length, [b.name]⟩ :: ofBindings site bindings := by
  simp [ofBindings, List.zipIdx_append]

end Binder

-- The binders of an expression that a part of it stands inside, the innermost first. An initialiser
-- stands inside the bindings before it.
def Expr.binders (site : Site) : Expr → Part → List Binder
  | .lambda params _ name, .body => ⟨site, .params, params⟩ :: Binder.ofName site name
  | .letIn bindings _, .init i => Binder.ofBindings site (bindings.take i)
  | .letIn bindings _, .body => Binder.ofBindings site bindings
  | _, _ => []

theorem next_of_drop {α : Type} {xs rest : List α} {x : α} {i : Nat} (left : xs.drop i = x :: rest) :
    xs[i]? = some x ∧ xs.drop (i + 1) = rest := by
  constructor
  · have first := congrArg List.head? left
    rwa [List.head?_drop] at first
  · have others := congrArg List.tail left
    rwa [List.tail_drop] at others

namespace Site

def node? : Site → Option Expr
  | .program e => some e
  | .part around p => around.node?.bind (·.part? p)

def binders : Site → List Binder
  | .program _ => []
  | .part around p => (around.node?.elim [] (·.binders around p)) ++ around.binders

variable {site : Site} {e : Expr}

theorem node?_part (node : site.node? = some e) (p : Part) : (part site p).node? = e.part? p := by
  rw [node?, node]
  rfl

theorem binders_part (node : site.node? = some e) (p : Part) :
    (part site p).binders = e.binders site p ++ site.binders := by
  rw [binders, node]
  rfl

theorem binders_init {bindings rest : List Binding} {body init : Expr} {i : Nat} {name : String}
    (node : site.node? = some (.letIn bindings body)) (left : bindings.drop i = .mk name init :: rest) :
    (part site (.init (i + 1))).binders =
      ⟨site, .binding i, [name]⟩ :: (part site (.init i)).binders := by
  have here : bindings[i]? = some (.mk name init) := (next_of_drop left).1
  have inside : i < bindings.length := (List.getElem?_eq_some_iff.mp here).1
  rw [binders_part node, binders_part node, Expr.binders, Expr.binders, List.take_add_one, here,
    Option.toList_some, Binder.ofBindings_append, List.length_take, Nat.min_eq_left (Nat.le_of_lt inside)]
  rfl

end Site

namespace Scope

theorem isSome_foldl_setIn (bindings vars : List (String × Value)) (name : String) :
    ((bindings.foldl (fun vars (name, v) => setIn name v vars) vars).lookup name).isSome = true ↔
      name ∈ bindings.map Prod.fst ∨ (vars.lookup name).isSome = true := by
  induction bindings generalizing vars with
  | nil => simp
  | cons entry bindings ih =>
      obtain ⟨key, v⟩ := entry
      rw [List.foldl_cons, ih, lookup_setIn]
      by_cases same : name = key <;> simp [same]

theorem isSome_ofBindings (bindings : List (String × Value)) (out : Option Stream) (name : String) :
    ((ofBindings bindings out).get? name).isSome = true ↔ name ∈ bindings.map Prod.fst := by
  refine (isSome_foldl_setIn bindings [] name).trans ?_
  simp only [List.lookup_nil, Option.isSome_none, Bool.false_eq_true, or_false]

end Scope

theorem World.bindArgs_names (params : List String) (args : List Value) :
    (World.bindArgs params args).map Prod.fst = params := by
  induction params generalizing args with
  | nil => rfl
  | cons param params ih => rw [bindArgs, List.map_cons, ih]

namespace Store

structure Names (s : Store) (i : ScopeId) (names : List String) : Prop where
  inside : i < s.scopes.size
  exact : ∀ x, (s.valueIn? x i).isSome = true ↔ x ∈ names

theorem names_push (s : Store) (bindings : List (String × Value)) (out : Option Stream) :
    (Store.mk (s.scopes.push (.ofBindings bindings out))).Names s.scopes.size
      (bindings.map Prod.fst) := by
  constructor
  · simp
  · intro x
    rw [valueIn?_push, if_pos rfl]
    exact Scope.isSome_ofBindings bindings out x

theorem get?_eq_lookup? (s : Store) (env : Env) (x : String) :
    s.get? env x = (s.lookup? env x).bind (s.valueIn? x) := by
  unfold get? lookup?
  induction env.chain with
  | nil => rfl
  | cons i chain ih =>
      rw [List.findSome?_cons, List.find?_cons]
      cases here : s.valueIn? x i with
      | none => simpa using ih
      | some v => simp [here]

end Store

structure Layout where
  root : ScopeId
  makers : ScopeId → Option Binder
  store : Store

namespace Layout

structure Grows (l l' : Layout) : Prop where
  root : l'.root = l.root
  size : l.store.scopes.size ≤ l'.store.scopes.size
  makers : ∀ i, i < l.store.scopes.size → l'.makers i = l.makers i
  names : ∀ i, i ≠ l.root → i < l.store.scopes.size →
    ∀ x, (l'.store.valueIn? x i).isSome = (l.store.valueIn? x i).isSome

variable {l l' l'' : Layout}

theorem Grows.refl : l.Grows l := ⟨rfl, Nat.le_refl _, fun _ _ => rfl, fun _ _ _ _ => rfl⟩

theorem Grows.trans (first : l.Grows l') (second : l'.Grows l'') : l.Grows l'' := by
  refine ⟨second.root.trans first.root, Nat.le_trans first.size second.size, ?_, ?_⟩
  · intro i inside
    rw [second.makers i (Nat.lt_of_lt_of_le inside first.size), first.makers i inside]
  · intro i inner inside x
    rw [second.names i (first.root ▸ inner) (Nat.lt_of_lt_of_le inside first.size) x,
      first.names i inner inside x]

def opened (l : Layout) (b : Binder) (bindings : List (String × Value)) : Layout where
  root := l.root
  makers := fun i => if i = l.store.scopes.size then some b else l.makers i
  store := ⟨l.store.scopes.push (.ofBindings bindings none)⟩

theorem grows_opened (b : Binder) (bindings : List (String × Value)) : l.Grows (l.opened b bindings) := by
  refine ⟨rfl, ?_, ?_, ?_⟩
  · simp [opened]
  · intro i inside
    exact if_neg (Nat.ne_of_lt inside)
  · intro i _ inside x
    rw [opened, Store.valueIn?_push, if_neg (Nat.ne_of_lt inside)]

theorem grows_setIn {i : ScopeId} {name : String}
    (known : i = l.root ∨ (l.store.valueIn? name i).isSome = true) (v : Value) :
    l.Grows { l with store := l.store.setIn i name v } := by
  refine ⟨rfl, ?_, fun _ _ => rfl, ?_⟩
  · simp [Store.setIn]
  · intro j inner _ x
    rw [Store.valueIn?_setIn]
    split
    · rename_i here
      obtain ⟨rfl, _, rfl⟩ := here
      exact (known.resolve_left inner).symm
    · rfl

structure HasBinder (l : Layout) (i : ScopeId) (b : Binder) : Prop where
  inner : i ≠ l.root
  maker : l.makers i = some b
  names : l.store.Names i b.names

theorem HasBinder.grows {i : ScopeId} {b : Binder} (holds : l.HasBinder i b) (grows : l.Grows l') :
    l'.HasBinder i b where
  inner := grows.root ▸ holds.inner
  maker := (grows.makers i holds.names.inside).trans holds.maker
  names := by
    refine ⟨Nat.lt_of_lt_of_le holds.names.inside grows.size, ?_⟩
    intro x
    rw [grows.names i holds.inner holds.names.inside x]
    exact holds.names.exact x

end Layout

def Env.Fits (l : Layout) (env : Env) (binders : List Binder) : Prop :=
  ∃ ids, env.chain = ids ++ [l.root] ∧ List.Forall₂ l.HasBinder ids binders

namespace Env

variable {l l' : Layout} {env : Env} {binders : List Binder}

theorem fits_root (l : Layout) : Fits l ⟨l.root, []⟩ [] := ⟨[], rfl, .nil⟩

theorem Fits.grows (fits : env.Fits l binders) (grows : l.Grows l') : env.Fits l' binders := by
  obtain ⟨ids, chain, held⟩ := fits
  exact ⟨ids, grows.root.symm ▸ chain, held.imp fun _ _ here => here.grows grows⟩

theorem Fits.child (fits : env.Fits l binders) (inside : l.root < l.store.scopes.size) (b : Binder)
    (bindings : List (String × Value)) (names : bindings.map Prod.fst = b.names) :
    (l.store.child env).Fits (l.opened b bindings) (b :: binders) := by
  obtain ⟨ids, chain, held⟩ := fits.grows (Layout.grows_opened b bindings)
  refine ⟨l.store.scopes.size :: ids, ?_, .cons ⟨Nat.ne_of_gt inside, if_pos rfl, ?_⟩ held⟩
  · rw [Store.child, Env.chain, chain, List.cons_append]
  · rw [← names]
    exact Store.names_push l.store bindings none

theorem Fits.isRoot (fits : env.Fits l binders) : env.isRoot = true ↔ binders = [] := by
  obtain ⟨ids, chain, held⟩ := fits
  have lengths := congrArg List.length chain
  have same := held.length_eq
  rw [Env.isRoot, List.isEmpty_iff]
  simp only [Env.chain, List.length_cons, List.length_append, List.length_nil] at lengths
  constructor
  · intro empty
    rw [empty, List.length_nil] at lengths
    exact List.eq_nil_of_length_eq_zero (by omega)
  · intro empty
    rw [empty, List.length_nil] at same
    exact List.eq_nil_of_length_eq_zero (by omega)

theorem Fits.scope_root (fits : env.Fits l []) : env.scope = l.root := by
  obtain ⟨ids, chain, held⟩ := fits
  cases held
  simp only [Env.chain, List.nil_append, List.cons.injEq] at chain
  exact chain.1

end Env

def Binder.innermost? (binders : List Binder) (x : String) : Option Nat :=
  binders.findIdx? fun b => b.names.contains x

theorem Binder.innermost?_none {binders : List Binder} {x : String} :
    innermost? binders x = none ↔ ∀ b ∈ binders, x ∉ b.names := by
  simp [innermost?]

namespace Env.Fits

variable {l : Layout} {env : Env} {binders : List Binder}

theorem lookup?_bound (fits : env.Fits l binders) (x : String) (j : Nat)
    (bound : Binder.innermost? binders x = some j) :
    ∃ i b, env.chain[j]? = some i ∧ binders[j]? = some b ∧ l.HasBinder i b ∧
      l.store.lookup? env x = some i := by
  obtain ⟨ids, chain, held⟩ := fits
  rw [Store.lookup?, chain]
  clear chain
  -- Outwards along the chain: a scope whose binder does not bind the name does not hold it.
  induction held generalizing j with
  | nil => simp [Binder.innermost?] at bound
  | @cons i b ids binders here _ ih =>
      rw [Binder.innermost?, List.findIdx?_cons] at bound
      by_cases binds : x ∈ b.names
      · have found : (l.store.valueIn? x i).isSome = true := (here.names.exact x).mpr binds
        simp only [List.contains_iff_mem.mpr binds, if_true, Option.some.injEq] at bound
        subst bound
        exact ⟨i, b, rfl, rfl, here, by simp [found]⟩
      · have missing : (l.store.valueIn? x i).isSome = false :=
          Bool.eq_false_iff.mpr fun found => binds ((here.names.exact x).mp found)
        have skipped : b.names.contains x = false := by simpa using binds
        simp only [skipped, Bool.false_eq_true, if_false, Option.map_eq_some_iff] at bound
        obtain ⟨j, later, rfl⟩ := bound
        obtain ⟨i', b', scope, binder, holds, looked⟩ := ih j later
        exact ⟨i', b', by simpa using scope, by simpa using binder, holds, by simpa [missing] using looked⟩

theorem lookup?_free (fits : env.Fits l binders) (x : String)
    (free : Binder.innermost? binders x = none) :
    l.store.lookup? env x = if (l.store.valueIn? x l.root).isSome then some l.root else none := by
  obtain ⟨ids, chain, held⟩ := fits
  rw [Binder.innermost?_none] at free
  rw [Store.lookup?, chain]
  clear chain
  induction held with
  | nil => cases found : (l.store.valueIn? x l.root).isSome <;> simp [found]
  | @cons i b ids binders here _ ih =>
      obtain ⟨unbound, others⟩ := List.forall_mem_cons.mp free
      have missing : (l.store.valueIn? x i).isSome = false :=
        Bool.eq_false_iff.mpr fun found => unbound ((here.names.exact x).mp found)
      rw [List.cons_append, List.find?_cons, missing]
      exact ih others

theorem target?_known (fits : env.Fits l binders) {x : String} {i : ScopeId}
    (target : l.store.target? env x = some i) :
    i = l.root ∨ (l.store.valueIn? x i).isSome = true := by
  unfold Store.target? at target
  split at target
  · rename_i found
    cases target
    exact .inr (by simpa using List.find?_some found)
  · split at target
    · rename_i atRoot
      cases target
      cases fits.isRoot.mp atRoot
      exact .inl fits.scope_root
    · cases target

end Env.Fits

-- What is in scope is what the text says: the chain has the scopes of the binders and ends at the root,
-- and a name is read and written in the scope of its innermost binder, else in the root.
structure Env.Lexical (l : Layout) (env : Env) (binders : List Binder) : Prop where
  chain : env.Fits l binders
  read : ∀ x, l.store.get? env x = (l.store.lookup? env x).bind (l.store.valueIn? x)
  bound : ∀ x j, Binder.innermost? binders x = some j →
    ∃ i b, env.chain[j]? = some i ∧ binders[j]? = some b ∧ l.HasBinder i b ∧
      l.store.lookup? env x = some i ∧ l.store.target? env x = some i
  free : ∀ x, Binder.innermost? binders x = none →
    (l.store.lookup? env x = if (l.store.valueIn? x l.root).isSome then some l.root else none) ∧
      l.store.target? env x =
        if (l.store.valueIn? x l.root).isSome ∨ env.isRoot then some l.root else none

namespace Env.Fits

variable {l : Layout} {env : Env} {binders : List Binder}

theorem lexical (fits : env.Fits l binders) : env.Lexical l binders := by
  refine ⟨fits, fun x => Store.get?_eq_lookup? l.store env x, ?_, ?_⟩
  · intro x j bound
    obtain ⟨i, b, scope, binder, holds, found⟩ := fits.lookup?_bound x j bound
    exact ⟨i, b, scope, binder, holds, found, by simp only [Store.target?, found]⟩
  · intro x free
    have looked := fits.lookup?_free x free
    refine ⟨looked, ?_⟩
    rw [Store.target?, looked]
    cases found : (l.store.valueIn? x l.root).isSome with
    | true => simp
    | false =>
        cases atRoot : env.isRoot with
        | false => simp
        | true =>
            cases fits.isRoot.mp atRoot
            simp [fits.scope_root]

theorem lookup_missing (fits : env.Fits l binders) {x : String}
    (missing : l.store.lookup? env x = none) :
    (∀ b ∈ binders, x ∉ b.names) ∧ l.store.valueIn? x l.root = none := by
  cases bound : Binder.innermost? binders x with
  | some j =>
      obtain ⟨i, b, _, _, _, found⟩ := fits.lookup?_bound x j bound
      cases missing.symm.trans found
  | none =>
      refine ⟨Binder.innermost?_none.mp bound, ?_⟩
      rw [fits.lookup?_free x bound] at missing
      simpa using missing

theorem read_missing (fits : env.Fits l binders) {x : String} (missing : l.store.get? env x = none) :
    (∀ b ∈ binders, x ∉ b.names) ∧ l.store.valueIn? x l.root = none := by
  apply fits.lookup_missing
  rw [Store.get?, List.findSome?_eq_none_iff] at missing
  rw [Store.lookup?, List.find?_eq_none]
  intro i member
  simp [missing i member]

theorem target_missing (fits : env.Fits l binders) {x : String}
    (missing : l.store.target? env x = none) :
    (∀ b ∈ binders, x ∉ b.names) ∧ l.store.valueIn? x l.root = none ∧ env.isRoot = false := by
  unfold Store.target? at missing
  split at missing
  · cases missing
  · rename_i looked
    obtain ⟨free, absent⟩ := fits.lookup_missing looked
    exact ⟨free, absent, by simpa using missing⟩

end Env.Fits

end Trampoline

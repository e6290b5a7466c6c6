import Trampoline.Direct
import Trampoline.Proofs.Stores

set_option autoImplicit false

namespace Trampoline

theorem Store.lt_of_valueIn? {s : Store} {x : String} {i : ScopeId} (defined : (s.valueIn? x i).isSome = true) :
    i < s.scopes.size := by
  refine Nat.lt_of_not_le fun beyond => ?_
  rw [valueIn?, Array.getElem?_eq_none beyond] at defined
  cases defined

structure Links (size : Nat) where
  parent : ScopeId → Option ScopeId
  acyclic : WellFounded fun p i => parent i = some p
  inside : ∀ i p, i < size → parent i = some p → p < size

namespace Links

variable {size : Nat} (links : Links size)

def outer (i : ScopeId) : List ScopeId :=
  match _around : links.parent i with
  | none => []
  | some p => p :: outer p
termination_by links.acyclic.wrap i
decreasing_by exact _around

def env (i : ScopeId) : Env := ⟨i, links.outer i⟩

theorem outer_root {i : ScopeId} (root : links.parent i = none) : links.outer i = [] := by
  rw [outer]
  split
  · rfl
  · rename_i p around
    rw [root] at around
    cases around

theorem chain_root {i : ScopeId} (root : links.parent i = none) : (links.env i).chain = [i] := by
  rw [env, Env.chain, links.outer_root root]

theorem chain_child {i p : ScopeId} (around : links.parent i = some p) :
    (links.env i).chain = i :: (links.env p).chain := by
  have outwards : links.outer i = p :: links.outer p := by
    rw [outer]
    split
    · rename_i root
      rw [around] at root
      cases root
    · rename_i q other
      rw [around] at other
      cases other
      rfl
  rw [env, Env.chain, outwards]
  rfl

theorem isRoot_iff (i : ScopeId) : (links.env i).isRoot = true ↔ links.parent i = none := by
  cases around : links.parent i with
  | none => simp [env, Env.isRoot, links.outer_root around]
  | some p =>
      have chain := links.chain_child around
      simp only [env, Env.chain, List.cons.injEq, true_and] at chain
      simp [env, Env.isRoot, chain]

theorem chain_inside {i : ScopeId} (present : i < size) : ∀ j ∈ (links.env i).chain, j < size := by
  induction i using links.acyclic.induction with
  | _ i ih =>
      intro j member
      cases around : links.parent i with
      | none =>
          rw [links.chain_root around] at member
          exact List.mem_singleton.mp member ▸ present
      | some p =>
          rw [links.chain_child around] at member
          rcases List.mem_cons.mp member with rfl | further
          · exact present
          · exact ih p around (links.inside i p present around) j further

-- The way outwards comes to `t`, and no scope before `t` defines the name.
inductive Meets (s : Store) (x : String) (t : ScopeId) : ScopeId → Prop where
  | here : Meets s x t t
  | outward {i p : ScopeId} : i ≠ t → s.valueIn? x i = none → links.parent i = some p → Meets s x t p → Meets s x t i

def Nearest (s : Store) (x : String) (i t : ScopeId) : Prop :=
  links.Meets s x t i ∧ (s.valueIn? x t).isSome = true

def Unknown (s : Store) (x : String) (i : ScopeId) : Prop := ∀ j ∈ (links.env i).chain, s.valueIn? x j = none

variable {s : Store}

theorem get?_root {i : ScopeId} (root : links.parent i = none) (y : String) :
    s.get? (links.env i) y = s.valueIn? y i := by
  rw [Store.get?, links.chain_root root]
  cases value : s.valueIn? y i <;> simp [value]

theorem get?_here {i : ScopeId} {y : String} {v : Value} (value : s.valueIn? y i = some v) :
    s.get? (links.env i) y = some v := by
  rw [Store.get?, env, Env.chain, List.findSome?_cons_of_isSome (h := by rw [value]; rfl), value]

theorem get?_outward {i p : ScopeId} {y : String} (absent : s.valueIn? y i = none) (around : links.parent i = some p) :
    s.get? (links.env i) y = s.get? (links.env p) y := by
  rw [Store.get?, links.chain_child around, List.findSome?_cons, absent]
  rfl

theorem Meets.get? {links : Links size} {x : String} {i t : ScopeId} {v : Value} (meets : links.Meets s x t i)
    (value : s.valueIn? x t = some v) : s.get? (links.env i) x = some v := by
  induction meets with
  | here => exact links.get?_here value
  | outward _ absent around _ ih => exact (links.get?_outward absent around).trans ih

theorem Nearest.unique {links : Links size} {x : String} {i t u : ScopeId} (near : links.Nearest s x i t)
    (near' : links.Nearest s x i u) : t = u := by
  obtain ⟨meets, defined⟩ := near
  obtain ⟨meets', defined'⟩ := near'
  induction meets with
  | here =>
      cases meets' with
      | here => rfl
      | outward _ absent _ _ =>
          rw [absent] at defined
          cases defined
  | outward _ absent around _ ih =>
      cases meets' with
      | here =>
          rw [absent] at defined'
          cases defined'
      | outward _ _ around' further =>
          cases around.symm.trans around'
          exact ih further

theorem lookup?_none_iff {x : String} {i : ScopeId} : s.lookup? (links.env i) x = none ↔ links.Unknown s x i := by
  simp [Store.lookup?, Unknown]

theorem nearest_of_lookup? {x : String} {i t : ScopeId} (found : s.lookup? (links.env i) x = some t) :
    links.Nearest s x i t := by
  induction i using links.acyclic.induction with
  | _ i ih =>
      cases value : s.valueIn? x i with
      | some v =>
          rw [Store.lookup?, env, Env.chain, List.find?_cons_of_pos (by rw [value]; rfl)] at found
          cases found
          exact ⟨.here, by rw [value]; rfl⟩
      | none =>
          cases around : links.parent i with
          | none =>
              rw [Store.lookup?, links.chain_root around, List.find?_cons, value] at found
              cases found
          | some p =>
              rw [Store.lookup?, links.chain_child around, List.find?_cons, value] at found
              obtain ⟨meets, defined⟩ := ih p around found
              refine ⟨.outward ?_ value around meets, defined⟩
              rintro rfl
              rw [value] at defined
              cases defined

-- All that differs between two stores, one of which comes from the other by a write of `v` as `x` in scope `t`.
structure OneWrite (s : Store) (t : ScopeId) (x : String) (v : Value) (s' : Store) : Prop where
  size : s'.scopes.size = s.scopes.size
  elsewhere : ∀ k, k ≠ t → s'.scopes[k]? = s.scopes[k]?
  written : ∀ y, s'.valueIn? y t = if y = x then some v else s.valueIn? y t
  nearest : ∀ j, links.Nearest s' x j t ↔ links.Meets s x t j
  seen : ∀ j, links.Nearest s' x j t → s'.get? (links.env j) x = some v
  unseen : ∀ j y, ¬ (y = x ∧ links.Nearest s' x j t) → s'.get? (links.env j) y = s.get? (links.env j) y

section Write

variable {s' : Store} {t : ScopeId} {x : String} {v : Value}
  (values : ∀ j y, s'.valueIn? y j = if j = t ∧ y = x then some v else s.valueIn? y j)

include values

theorem meets_written (j : ScopeId) : links.Meets s' x t j ↔ links.Meets s x t j := by
  constructor
  · intro meets
    induction meets with
    | here => exact .here
    | outward other absent around _ ih =>
        rw [values, if_neg (fun both => other both.1)] at absent
        exact .outward other absent around ih
  · intro meets
    induction meets with
    | here => exact .here
    | outward other absent around _ ih =>
        refine .outward other ?_ around ih
        rw [values, if_neg (fun both => other both.1), absent]

theorem get?_unwritten (j : ScopeId) (y : String) (apart : ¬ (y = x ∧ links.Meets s x t j)) :
    s'.get? (links.env j) y = s.get? (links.env j) y := by
  induction j using links.acyclic.induction with
  | _ j ih =>
      have other : ¬ (j = t ∧ y = x) := fun ⟨here, name⟩ => apart ⟨name, here ▸ .here⟩
      have same : s'.valueIn? y j = s.valueIn? y j := by rw [values, if_neg other]
      cases value : s.valueIn? y j with
      | some old => rw [links.get?_here value, links.get?_here (same.trans value)]
      | none =>
          cases around : links.parent j with
          | none => rw [links.get?_root around, links.get?_root around, same]
          | some p =>
              rw [links.get?_outward value around, links.get?_outward (same.trans value) around]
              refine ih p around fun ⟨name, meets⟩ => apart ⟨name, ?_⟩
              exact .outward (fun here => other ⟨here, name⟩) (name ▸ value) around meets

end Write

theorem oneWrite_setIn {t : ScopeId} (present : t < s.scopes.size) (x : String) (v : Value) :
    links.OneWrite s t x v (s.setIn t x v) := by
  have values (j : ScopeId) (y : String) :
      (s.setIn t x v).valueIn? y j = if j = t ∧ y = x then some v else s.valueIn? y j := by
    rw [Store.valueIn?_setIn]
    by_cases here : j = t
    · simp [here, present]
    · simp [here, Ne.symm here]
  have value : (s.setIn t x v).valueIn? x t = some v := by rw [values, if_pos ⟨rfl, rfl⟩]
  have nearest (j : ScopeId) : links.Nearest (s.setIn t x v) x j t ↔ links.Meets s x t j := by
    rw [Nearest, value, links.meets_written values]
    exact and_iff_left rfl
  refine ⟨by simp [Store.setIn], fun k other => ?_, fun y => ?_, nearest, fun j near => near.1.get? value,
    fun j y apart => ?_⟩
  · rw [Store.setIn, Array.getElem?_modify, if_neg (Ne.symm other)]
  · simp [values]
  · apply links.get?_unwritten values j y
    rintro ⟨name, meets⟩
    exact apart ⟨name, (nearest j).mpr meets⟩

theorem assign?_none_iff {x : String} {v : Value} {i : ScopeId} :
    s.assign? (links.env i) x v = none ↔ links.Unknown s x i ∧ links.parent i ≠ none := by
  rw [← links.lookup?_none_iff, Store.assign?, Option.map_eq_none_iff, Store.target?]
  have root := links.isRoot_iff i
  cases found : s.lookup? (links.env i) x with
  | some t => simp
  | none => by_cases isRoot : (links.env i).isRoot = true <;> simp_all

theorem assign?_some {x : String} {v : Value} {i : ScopeId} {s' : Store} (present : i < s.scopes.size)
    (assigned : s.assign? (links.env i) x v = some s') :
    ∃ t, (links.Nearest s x i t ∨ links.Unknown s x i ∧ links.parent i = none ∧ t = i) ∧
      links.OneWrite s t x v s' := by
  obtain ⟨t, target, rfl⟩ := Option.map_eq_some_iff.mp assigned
  rw [Store.target?] at target
  cases found : s.lookup? (links.env i) x with
  | some u =>
      rw [found] at target
      cases target
      have near := links.nearest_of_lookup? found
      exact ⟨t, .inl near, links.oneWrite_setIn (Store.lt_of_valueIn? near.2) x v⟩
  | none =>
      rw [found] at target
      obtain ⟨root, here⟩ := Option.ite_none_right_eq_some.mp target
      cases here
      exact ⟨i, .inr ⟨links.lookup?_none_iff.mp found, (links.isRoot_iff i).mp root, rfl⟩,
        links.oneWrite_setIn present x v⟩

theorem get?_extend (links : Links s.scopes.size) (i : ScopeId) (vars : List (String × Value)) {j : ScopeId}
    (present : j < s.scopes.size) (y : String) :
    (s.extend (links.env i) vars).2.get? (links.env j) y = s.get? (links.env j) y := by
  have inside := links.chain_inside present
  rw [Store.get?, Store.get?]
  generalize (links.env j).chain = chain at inside
  induction chain with
  | nil => rfl
  | cons k chain ih =>
      have old : (s.extend (links.env i) vars).2.valueIn? y k = s.valueIn? y k := by
        rw [Store.extend, Store.valueIn?_push, if_neg (Nat.ne_of_lt (inside k List.mem_cons_self))]
      rw [List.findSome?_cons, List.findSome?_cons, old, ih fun l member => inside l (List.mem_cons_of_mem _ member)]

theorem get?_child (links : Links s.scopes.size) {i : ScopeId} (present : i < s.scopes.size) (y : String) :
    (s.extend (links.env i) []).2.get? (s.extend (links.env i) []).1 y = s.get? (links.env i) y := by
  have empty : (s.extend (links.env i) []).2.valueIn? y s.scopes.size = none := by
    rw [Store.extend, Store.valueIn?_push, if_pos rfl]
    rfl
  have outwards : (s.extend (links.env i) []).1.chain = s.scopes.size :: (links.env i).chain := rfl
  rw [Store.get?, outwards, List.findSome?_cons, empty]
  exact links.get?_extend i [] present y

end Links

namespace Direct

theorem write_of_assign?_none {w : World} {env : Env} {x : String} {v : Value}
    (refused : w.store.assign? env x v = none) : write env x v w = .failed (.undefinedVariable x) w := by
  rw [write, Option.map_eq_none_iff.mp refused]

theorem write_of_assign?_some {w : World} {env : Env} {x : String} {v : Value} {s : Store}
    (assigned : w.store.assign? env x v = some s) : write env x v w = .done v { w with store := s } := by
  obtain ⟨t, target, rfl⟩ := Option.map_eq_some_iff.mp assigned
  rw [write, target]
  rfl

end Direct

-- An assignment fails exactly for a name that is not defined on the way outwards, unless it is made in a root; else it
-- changes one scope and what is seen of it. A definition changes the scope where it is made, and a new scope nothing.
theorem Links.assignment_frame (w : World) (links : Links w.store.scopes.size) {i : ScopeId}
    (present : i < w.store.scopes.size) (x : String) (v : Value) :
    (Direct.write (links.env i) x v w = .failed (.undefinedVariable x) w ↔
      links.Unknown w.store x i ∧ links.parent i ≠ none) ∧
    (¬ (links.Unknown w.store x i ∧ links.parent i ≠ none) → ∃ t s',
      Direct.write (links.env i) x v w = .done v { w with store := s' } ∧
      (links.Nearest w.store x i t ∨ links.Unknown w.store x i ∧ links.parent i = none ∧ t = i) ∧
      links.OneWrite w.store t x v s') ∧
    links.OneWrite w.store i x v (w.store.define (links.env i) x v) ∧
    (∀ vars j, j < w.store.scopes.size → ∀ y,
      (w.store.extend (links.env i) vars).2.get? (links.env j) y = w.store.get? (links.env j) y) ∧
    ∀ y, (w.store.extend (links.env i) []).2.get? (w.store.extend (links.env i) []).1 y
      = w.store.get? (links.env i) y := by
  refine ⟨?_, fun defined => ?_, links.oneWrite_setIn present x v, fun vars j there y => links.get?_extend i vars there y,
    links.get?_child present⟩
  · rw [← links.assign?_none_iff (v := v)]
    cases assigned : w.store.assign? (links.env i) x v with
    | none => exact iff_of_true (Direct.write_of_assign?_none assigned) rfl
    | some s =>
        rw [Direct.write_of_assign?_some assigned]
        exact iff_of_false (fun same => nomatch same) (fun same => nomatch same)
  · cases assigned : w.store.assign? (links.env i) x v with
    | none => exact absurd (links.assign?_none_iff.mp assigned) defined
    | some s =>
        obtain ⟨t, target, one⟩ := links.assign?_some present assigned
        exact ⟨t, s, Direct.write_of_assign?_some assigned, target, one⟩

def forked : World := { store := ⟨#[⟨[("x", .num 1)], none⟩, {}, ⟨[("x", .num 2)], none⟩, {}]⟩ }

def forkedLinks : Links forked.store.scopes.size where
  parent i := if i = 1 then some 0 else if i = 2 ∨ i = 3 then some 1 else none
  acyclic := by
    refine Subrelation.wf (r := (· < ·)) (fun {p i} around => ?_) Nat.lt_wfRel.wf
    grind
  inside := by
    intro i p present around
    have : forked.store.scopes.size = 4 := rfl
    grind

theorem forked_assignment_seen :
    3 < forked.store.scopes.size ∧ ∃ s',
      Direct.write (forkedLinks.env 3) "x" (.bool true) forked = .done (.bool true) { forked with store := s' } ∧
      s'.get? (forkedLinks.env 1) "x" = some (.bool true) ∧
      s'.get? (forkedLinks.env 2) "x" = forked.store.get? (forkedLinks.env 2) "x" := by
  have present : 3 < forked.store.scopes.size := by decide
  have root : forkedLinks.Meets forked.store "x" 0 1 := .outward (by decide) rfl rfl .here
  have away : ¬ forkedLinks.Meets forked.store "x" 0 2 := by
    rintro (_ | ⟨_, shadow, _, _⟩)
    cases shadow
  have known : ¬ forkedLinks.Unknown forked.store "x" 3 := by
    intro unknown
    have member : 0 ∈ (forkedLinks.env 3).chain := by
      rw [forkedLinks.chain_child (p := 1) rfl, forkedLinks.chain_child (p := 0) rfl, forkedLinks.chain_root rfl]
      decide
    cases unknown 0 member
  obtain ⟨t, s', wrote, target, one⟩ := (forkedLinks.assignment_frame forked present "x" (.bool true)).2.1
    fun ⟨unknown, _⟩ => known unknown
  have near := target.resolve_right fun ⟨unknown, _, _⟩ => known unknown
  cases near.unique ⟨.outward (by decide) rfl rfl root, rfl⟩
  refine ⟨present, s', wrote, one.seen 1 ((one.nearest 1).mpr root), one.unseen 2 "x" fun ⟨_, near⟩ => ?_⟩
  exact away ((one.nearest 2).mp near)

end Trampoline

import Trampoline.World

set_option autoImplicit false

namespace Trampoline

section Related

variable {α β γ δ : Type} {related : α → β → Prop} {related' : γ → δ → Prop} {here : Option α} {there : Option β}

theorem rel_map {f : α → γ} {g : β → δ} (pair : Option.Rel related here there)
    (kept : ∀ a b, related a b → related' (f a) (g b)) :
    Option.Rel related' (here.map f) (there.map g) := by
  cases pair with
  | none => exact .none
  | some pair => exact .some (kept _ _ pair)

theorem rel_bind {f : α → Option γ} {g : β → Option δ} (pair : Option.Rel related here there)
    (kept : ∀ a b, related a b → Option.Rel related' (f a) (g b)) :
    Option.Rel related' (here.bind f) (there.bind g) := by
  cases pair with
  | none => exact .none
  | some pair => exact kept _ _ pair

theorem isSome_of_rel (pair : Option.Rel related here there) : there.isSome = here.isSome := by
  cases pair <;> rfl

end Related

namespace Scope

theorem lookup_setIn (name other : String) (v : Value) (vars : List (String × Value)) :
    (setIn name v vars).lookup other = if other = name then some v else vars.lookup other := by
  induction vars with
  | nil =>
      by_cases same : other = name
      · simp [setIn, same]
      · simp [setIn, List.lookup_cons, same, beq_eq_false_iff_ne.mpr same]
  | cons entry vars ih =>
      obtain ⟨key, old⟩ := entry
      by_cases here : key = name
      · subst here
        by_cases same : other = key
        · simp [setIn, same]
        · simp [setIn, List.lookup_cons, same, beq_eq_false_iff_ne.mpr same]
      · by_cases same : other = key
        · subst same
          simp [setIn, here]
        · simp [setIn, List.lookup_cons, here, beq_eq_false_iff_ne.mpr same, ih]

theorem get?_set (s : Scope) (name other : String) (v : Value) :
    (s.set name v).get? other = if other = name then some v else s.get? other :=
  lookup_setIn name other v s.vars

theorem lookup_foldl_setIn (bindings vars : List (String × Value)) (name : String) (v : Value)
    (found : (bindings.foldl (fun vars (name, v) => setIn name v vars) vars).lookup name = some v) :
    (name, v) ∈ bindings ∨ vars.lookup name = some v := by
  induction bindings generalizing vars with
  | nil => exact .inr found
  | cons entry bindings ih =>
      obtain ⟨key, value⟩ := entry
      rcases ih (setIn key value vars) found with later | before
      · exact .inl (List.mem_cons_of_mem _ later)
      · rw [lookup_setIn] at before
        split at before
        · rename_i same
          cases before
          exact .inl (by simp [same])
        · exact .inr before

theorem get?_ofBindings (bindings : List (String × Value)) (out : Option Stream) (name : String)
    (v : Value) (found : (ofBindings bindings out).get? name = some v) : (name, v) ∈ bindings := by
  rcases lookup_foldl_setIn bindings [] name v found with bound | absent
  · exact bound
  · simp at absent

end Scope

namespace Store

theorem valueIn?_setIn (s : Store) (i j : ScopeId) (name other : String) (v : Value) :
    (s.setIn i name v).valueIn? other j =
      if i = j ∧ j < s.scopes.size ∧ other = name then some v else s.valueIn? other j := by
  unfold valueIn? setIn
  rw [Array.getElem?_modify]
  by_cases here : i = j
  · subst here
    by_cases inside : i < s.scopes.size
    · by_cases same : other = name <;> simp [inside, same, Scope.get?_set]
    · simp [inside]
  · simp [here]

theorem valueIn?_push (s : Store) (scope : Scope) (name : String) (j : ScopeId) :
    (Store.mk (s.scopes.push scope)).valueIn? name j =
      if j = s.scopes.size then scope.get? name else s.valueIn? name j := by
  unfold valueIn?
  rw [Array.getElem?_push]
  split <;> simp

def Holds (P : Value → Prop) (s : Store) : Prop :=
  ∀ name i v, s.valueIn? name i = some v → P v

section Holds

variable {P : Value → Prop} {s : Store}

theorem empty_holds : ({} : Store).Holds P := by
  intro name i v found
  simp [valueIn?] at found

theorem holds_get? (holds : s.Holds P) (env : Env) (name : String) (v : Value)
    (found : s.get? env name = some v) : P v := by
  obtain ⟨i, _, here⟩ := List.exists_of_findSome?_eq_some found
  exact holds name i v here

theorem holds_setIn (holds : s.Holds P) (i : ScopeId) (name : String) (v : Value) (property : P v) :
    (s.setIn i name v).Holds P := by
  intro other j value found
  rw [valueIn?_setIn] at found
  split at found
  · cases found
    exact property
  · exact holds other j value found

theorem holds_push (holds : s.Holds P) (bindings : List (String × Value)) (out : Option Stream)
    (property : ∀ entry ∈ bindings, P entry.2) :
    (Store.mk (s.scopes.push (.ofBindings bindings out))).Holds P := by
  intro name j value found
  rw [valueIn?_push] at found
  split at found
  · exact property _ (Scope.get?_ofBindings bindings out name value found)
  · exact holds name j value found

end Holds

-- Every value that is there has a property, also one behind another of the same name.
def Every (P : Value → Prop) (s : Store) : Prop :=
  ∀ scope ∈ s.scopes, ∀ entry ∈ scope.vars, P entry.2

end Store

namespace Scope

variable {P : Value → Prop}

theorem every_setIn {name : String} {v : Value} {vars : List (String × Value)}
    (every : ∀ entry ∈ vars, P entry.2) (property : P v) : ∀ entry ∈ setIn name v vars, P entry.2 := by
  induction vars with
  | nil => exact List.forall_mem_singleton.mpr property
  | cons entry vars ih =>
      obtain ⟨first, others⟩ := List.forall_mem_cons.mp every
      rw [setIn]
      split
      · exact List.forall_mem_cons.mpr ⟨property, others⟩
      · exact List.forall_mem_cons.mpr ⟨first, ih others⟩

theorem every_foldl_setIn {bindings vars : List (String × Value)} (every : ∀ entry ∈ vars, P entry.2)
    (property : ∀ entry ∈ bindings, P entry.2) :
    ∀ entry ∈ bindings.foldl (fun vars (name, v) => setIn name v vars) vars, P entry.2 := by
  induction bindings generalizing vars with
  | nil => exact every
  | cons entry bindings ih =>
      obtain ⟨first, others⟩ := List.forall_mem_cons.mp property
      exact ih (every_setIn every first) others

end Scope

namespace Store

section Every

variable {P Q : Value → Prop} {s : Store}

theorem Every.holds (every : s.Every P) : s.Holds P := by
  intro name i v found
  obtain ⟨scope, here, found⟩ := Option.bind_eq_some_iff.mp found
  have listed : (name, v) ∈ scope.vars := by
    obtain ⟨before, after, split, _⟩ := List.lookup_eq_some_iff.mp found
    simp [split]
  exact every scope (Array.mem_of_getElem? here) _ listed

theorem Every.mono (every : s.Every P) (weaker : ∀ v, P v → Q v) : s.Every Q :=
  fun scope member entry listed => weaker _ (every scope member entry listed)

theorem every_setIn (every : s.Every P) (i : ScopeId) (name : String) (v : Value) (property : P v) :
    (s.setIn i name v).Every P := by
  intro scope member
  obtain ⟨j, found⟩ := Array.getElem?_of_mem member
  simp only [setIn, Array.getElem?_modify] at found
  split at found
  · obtain ⟨before, here, rfl⟩ := Option.map_eq_some_iff.mp found
    exact Scope.every_setIn (every before (Array.mem_of_getElem? here)) property
  · exact every scope (Array.mem_of_getElem? found)

theorem every_push (every : s.Every P) (bindings : List (String × Value)) (out : Option Stream)
    (property : ∀ entry ∈ bindings, P entry.2) :
    (Store.mk (s.scopes.push (.ofBindings bindings out))).Every P := by
  intro scope member
  rcases Array.mem_push.mp member with before | last
  · exact every scope before
  · subst last
    exact Scope.every_foldl_setIn (by simp) property

end Every

end Store

section MapValues

variable (f : Value → Value)

def mapEntry (entry : String × Value) : String × Value := (entry.1, f entry.2)

def Scope.mapValues (s : Scope) : Scope := { s with vars := s.vars.map (mapEntry f) }

def Store.mapValues (s : Store) : Store := ⟨s.scopes.map (Scope.mapValues f)⟩

namespace Scope

theorem setIn_map (name : String) (v : Value) (vars : List (String × Value)) :
    setIn name (f v) (vars.map (mapEntry f)) = (setIn name v vars).map (mapEntry f) := by
  induction vars with
  | nil => rfl
  | cons entry vars ih =>
      by_cases here : entry.1 = name
      · simp [setIn, mapEntry, here]
      · simp [setIn, mapEntry, here, ih]

theorem set_mapValues (s : Scope) (name : String) (v : Value) :
    (s.mapValues f).set name (f v) = (s.set name v).mapValues f := by
  simp only [set, mapValues, setIn_map]

theorem foldl_setIn_map (bindings vars : List (String × Value)) :
    (bindings.map (mapEntry f)).foldl (fun vars (name, v) => setIn name v vars)
        (vars.map (mapEntry f)) =
      (bindings.foldl (fun vars (name, v) => setIn name v vars) vars).map (mapEntry f) := by
  induction bindings generalizing vars with
  | nil => rfl
  | cons entry bindings ih =>
      obtain ⟨name, v⟩ := entry
      simp only [List.map_cons, List.foldl_cons, mapEntry] at ih ⊢
      rw [← ih, setIn_map]

theorem ofBindings_map (bindings : List (String × Value)) (out : Option Stream) :
    ofBindings (bindings.map (mapEntry f)) out = (ofBindings bindings out).mapValues f := by
  have folded := foldl_setIn_map f bindings []
  simp only [ofBindings, mapValues, ← folded]
  rfl

theorem get?_mapValues (s : Scope) (name : String) :
    (s.mapValues f).get? name = (s.get? name).map f := by
  obtain ⟨vars, out⟩ := s
  simp only [get?, mapValues]
  induction vars with
  | nil => rfl
  | cons entry vars ih =>
      obtain ⟨key, v⟩ := entry
      by_cases same : name = key
      · simp [mapEntry, same]
      · simp [mapEntry, List.lookup_cons, beq_eq_false_iff_ne.mpr same, ← ih]

end Scope

namespace Store

theorem valueIn?_mapValues (s : Store) (name : String) (i : ScopeId) :
    (s.mapValues f).valueIn? name i = (s.valueIn? name i).map f := by
  simp only [valueIn?, mapValues, Array.getElem?_map]
  cases s.scopes[i]? with
  | none => rfl
  | some scope => exact Scope.get?_mapValues f scope name

theorem get?_mapValues (s : Store) (env : Env) (name : String) :
    (s.mapValues f).get? env name = (s.get? env name).map f := by
  simp only [get?, List.map_findSome?]
  congr 1
  funext i
  exact valueIn?_mapValues f s name i

theorem target?_mapValues (s : Store) (env : Env) (name : String) :
    (s.mapValues f).target? env name = s.target? env name := by
  simp only [target?, lookup?, valueIn?_mapValues, Option.isSome_map]

theorem setIn_mapValues (s : Store) (i : ScopeId) (name : String) (v : Value) :
    (s.mapValues f).setIn i name (f v) = (s.setIn i name v).mapValues f := by
  simp only [setIn, mapValues, Store.mk.injEq]
  apply Array.ext
  · simp
  · intro j bound₁ bound₂
    by_cases here : i = j <;> simp [Array.getElem_modify, here, Scope.set_mapValues]

theorem child_mapValues (s : Store) (env : Env) : (s.mapValues f).child env = s.child env := by
  simp [child, mapValues]

theorem push_mapValues (s : Store) (bindings : List (String × Value)) (out : Option Stream) :
    Store.mk ((s.mapValues f).scopes.push (.ofBindings (bindings.map (mapEntry f)) out)) =
      (Store.mk (s.scopes.push (.ofBindings bindings out))).mapValues f := by
  simp only [mapValues, Array.map_push, Scope.ofBindings_map]

theorem output_mapValues (s : Store) (env : Env) : (s.mapValues f).output env = s.output env := by
  simp only [output, mapValues, Array.getElem?_map, Option.bind_map]
  rfl

theorem mapValues_congr {f g : Value → Value} {s : Store} (same : s.Every fun v => f v = g v) :
    s.mapValues f = s.mapValues g := by
  simp only [mapValues, Store.mk.injEq]
  apply Array.map_congr_left
  intro scope member
  simp only [Scope.mapValues, Scope.mk.injEq, and_true]
  apply List.map_congr_left
  intro entry listed
  exact congrArg (Prod.mk entry.1) (same scope member entry listed)

theorem holds_mapValues {P Q : Value → Prop} {s : Store} (holds : s.Holds P)
    (property : ∀ v, P v → Q (f v)) : (s.mapValues f).Holds Q := by
  intro name i v found
  rw [valueIn?_mapValues] at found
  obtain ⟨u, here, rfl⟩ := Option.map_eq_some_iff.mp found
  exact property u (holds name i u here)

end Store

theorem firstArg_map (no : f .no = .no) (args : List Value) : firstArg (args.map f) = f (firstArg args) := by
  cases args with
  | nil => exact no.symm
  | cons v args => rfl

theorem bindArgs_map (no : f .no = .no) (params : List String) (args : List Value) :
    World.bindArgs params (args.map f) = (World.bindArgs params args).map (mapEntry f) := by
  induction params generalizing args with
  | nil => rfl
  | cons param params ih =>
      rw [World.bindArgs, World.bindArgs, List.map_cons, firstArg_map f no, ← List.map_tail, ih]
      rfl

end MapValues

theorem firstArg_holds {P : Value → Prop} (no : P .no) (args : List Value)
    (property : ∀ v ∈ args, P v) : P (firstArg args) := by
  cases args with
  | nil => exact no
  | cons v args => exact property v (by simp)

theorem bindArgs_holds {P : Value → Prop} (no : P .no) (params : List String) (args : List Value)
    (property : ∀ v ∈ args, P v) : ∀ entry ∈ World.bindArgs params args, P entry.2 := by
  induction params generalizing args with
  | nil => simp [World.bindArgs]
  | cons param params ih =>
      intro entry member
      rcases List.mem_cons.mp member with first | later
      · subst first
        exact firstArg_holds no args property
      · exact ih args.tail (fun v inTail => property v (List.mem_of_mem_tail inTail)) entry later

def World.rooted (mode : Mode) (machines : Array Machine) : World :=
  (({ machines := machines } : World).root mode none).2

theorem World.root_holds {P : Value → Prop} {w : World} (holds : w.store.Holds P) (mode : Mode)
    (out : Option Stream) (library : ∀ b ∈ Builtin.library mode, P (.builtin b)) :
    (w.root mode out).2.store.Holds P := by
  refine Store.holds_push holds _ out ?_
  intro entry member
  obtain ⟨b, listed, rfl⟩ := List.mem_map.mp member
  exact library b listed

end Trampoline

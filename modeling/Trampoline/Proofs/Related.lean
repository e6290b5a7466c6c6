import Mathlib.Data.List.Forall2
import Trampoline.Proofs.Operators
import Trampoline.Proofs.Stores

set_option autoImplicit false

namespace Trampoline

inductive Failure.Related (R : Value → Value → Prop) : Failure → Failure → Prop where
  | notNumber {v u : Value} : R v u → Failure.Related R (.notNumber v) (.notNumber u)
  | notFunction {v u : Value} : R v u → Failure.Related R (.notFunction v) (.notFunction u)
  | same {cause : Failure} : (∀ v, cause ≠ .notNumber v ∧ cause ≠ .notFunction v) → Failure.Related R cause cause

inductive ResultRelated {α : Type} (F : Failure → Failure → Prop) (R : α → α → Prop) :
    Except Failure α → Except Failure α → Prop where
  | ok {a b : α} : R a b → ResultRelated F R (.ok a) (.ok b)
  | error {cause cause' : Failure} : F cause cause' → ResultRelated F R (.error cause) (.error cause')

theorem ResultRelated.bind {α : Type} {F : Failure → Failure → Prop} {R : α → α → Prop} {x y : Except Failure Float}
    {f g : Float → Except Failure α} (first : ResultRelated F Eq x y) (rest : ∀ a, ResultRelated F R (f a) (g a)) :
    ResultRelated F R (x >>= f) (y >>= g) := by
  cases first with
  | ok same => exact same ▸ rest _
  | error cause => exact .error cause

theorem Failure.Related.message_eq {R : Value → Value → Prop} (shown : ∀ {v u : Value}, R v u → u.shown = v.shown)
    {cause cause' : Failure} (related : cause.Related R cause') : cause'.message = cause.message := by
  cases related with
  | notNumber value => exact congrArg ("Expected number but got " ++ ·) (shown value)
  | notFunction value => exact congrArg ("Expected function but got " ++ ·) (shown value)
  | same => rfl

structure Value.Indistinct (R : Value → Value → Prop) : Prop where
  number (x : Float) : R (.num x) (.num x)
  truth (b : Bool) : R (.bool b) (.bool b)
  truthy {v u : Value} : R v u → u.truthy = v.truthy
  same {v u v' u' : Value} : R v u → R v' u' → u.same u' = v.same v'
  toNumber {v u : Value} : R v u → ResultRelated (Failure.Related R) Eq v.toNumber u.toNumber

section Operators

variable {R : Value → Value → Prop} (indistinct : Value.Indistinct R)

include indistinct

namespace Value.Indistinct

variable {v u v' u' : Value}

theorem toDivisor (related : R v u) : ResultRelated (Failure.Related R) Eq v.toDivisor u.toDivisor := by
  refine (indistinct.toNumber related).bind fun x => ?_
  split
  · exact .error (.same fun _ => ⟨by simp, by simp⟩)
  · exact .ok rfl

theorem applyOperator (left : R v u) (right : R v' u') (symbol : String) :
    ResultRelated (Failure.Related R) R (applyOperator symbol v v') (applyOperator symbol u u') := by
  have number := indistinct.number
  have truth := indistinct.truth
  have first := indistinct.toNumber left
  have second := indistinct.toNumber right
  have divisor := indistinct.toDivisor right
  unfold Trampoline.applyOperator
  cases Operator.ofSymbol? symbol with
  | none => exact .error (.same fun _ => ⟨by simp, by simp⟩)
  | some op =>
      cases op with
      | add | sub | mul => exact first.bind fun x => second.bind fun y => .ok (number _)
      | lt | gt | le | ge => exact first.bind fun x => second.bind fun y => .ok (truth _)
      | div => exact first.bind fun x => divisor.bind fun y => .ok (number _)
      | rem =>
          refine first.bind fun x => divisor.bind fun y => ?_
          cases Binary64.remainder? x y with
          | none => exact .error (.same fun _ => ⟨by simp, by simp⟩)
          | some r => exact .ok (number r)
      | eq | ne =>
          simp only [Operator.apply, indistinct.same left right]
          exact .ok (truth _)
      | and =>
          simp only [Operator.apply, indistinct.truthy left]
          split
          · exact .ok right
          · exact .ok (truth false)
      | or =>
          simp only [Operator.apply, indistinct.truthy left]
          split
          · exact .ok left
          · exact .ok right

end Value.Indistinct

end Operators

def EntryRelated (R : Value → Value → Prop) (entry entry' : String × Value) : Prop :=
  entry'.1 = entry.1 ∧ R entry.2 entry'.2

structure Scope.Related (R : Value → Value → Prop) (scope scope' : Scope) : Prop where
  vars : List.Forall₂ (EntryRelated R) scope.vars scope'.vars
  out : scope'.out = scope.out

section Scopes

variable {R : Value → Value → Prop} {vars vars' : List (String × Value)} {v u : Value} {vs us : List Value}

theorem printText_related (text : ∀ {v u : Value}, R v u → u.text = v.text) (related : List.Forall₂ R vs us) :
    printText us = printText vs := by
  have texts : us.map Value.text = vs.map Value.text := by
    induction related with
    | nil => rfl
    | cons value _ ih => rw [List.map_cons, List.map_cons, text value, ih]
  rw [printText, printText, texts]

theorem firstArg_related (no : R .no .no) (related : List.Forall₂ R vs us) : R (firstArg vs) (firstArg us) := by
  cases related with
  | nil => exact no
  | cons value _ => exact value

theorem entry_related (name : String) (value : R v u) : List.Forall₂ (EntryRelated R) [(name, v)] [(name, u)] :=
  .cons ⟨rfl, value⟩ .nil

theorem bindArgs_related (no : R .no .no) (params : List String) (related : List.Forall₂ R vs us) :
    List.Forall₂ (EntryRelated R) (World.bindArgs params vs) (World.bindArgs params us) := by
  induction params generalizing vs us with
  | nil => exact .nil
  | cons param params ih =>
      refine .cons ⟨rfl, firstArg_related no related⟩ (ih ?_)
      cases related with
      | nil => exact .nil
      | cons _ rest => exact rest

namespace Scope

theorem lookup_related (related : List.Forall₂ (EntryRelated R) vars vars') (name : String) :
    Option.Rel R (vars.lookup name) (vars'.lookup name) := by
  induction related with
  | nil => exact .none
  | @cons entry entry' _ _ first rest ih =>
      obtain ⟨key, old⟩ := entry
      obtain ⟨key', old'⟩ := entry'
      obtain ⟨rfl, value⟩ := first
      simp only [List.lookup_cons]
      cases name == key' with
      | true => exact .some value
      | false => exact ih

theorem setIn_related (related : List.Forall₂ (EntryRelated R) vars vars') (name : String) (value : R v u) :
    List.Forall₂ (EntryRelated R) (setIn name v vars) (setIn name u vars') := by
  induction related with
  | nil => exact .cons ⟨rfl, value⟩ .nil
  | @cons entry entry' _ _ first rest ih =>
      obtain ⟨key, old⟩ := entry
      obtain ⟨key', old'⟩ := entry'
      obtain ⟨rfl, old⟩ := first
      rw [setIn, setIn]
      split
      · exact .cons ⟨rfl, value⟩ rest
      · exact .cons ⟨rfl, old⟩ ih

theorem foldl_setIn_related {bindings bindings' : List (String × Value)}
    (related : List.Forall₂ (EntryRelated R) bindings bindings')
    (before : List.Forall₂ (EntryRelated R) vars vars') :
    List.Forall₂ (EntryRelated R) (bindings.foldl (fun vars entry => setIn entry.1 entry.2 vars) vars)
      (bindings'.foldl (fun vars entry => setIn entry.1 entry.2 vars) vars') := by
  induction related generalizing vars vars' with
  | nil => exact before
  | @cons entry entry' _ _ first rest ih =>
      obtain ⟨key, value⟩ := entry
      obtain ⟨key', value'⟩ := entry'
      obtain ⟨rfl, value⟩ := first
      exact ih (setIn_related before _ value)

theorem Related.get? {scope scope' : Scope} (related : scope.Related R scope') (name : String) :
    Option.Rel R (scope.get? name) (scope'.get? name) :=
  lookup_related related.vars name

theorem Related.set {scope scope' : Scope} (related : scope.Related R scope') (name : String) (value : R v u) :
    (scope.set name v).Related R (scope'.set name u) :=
  ⟨setIn_related related.vars name value, related.out⟩

theorem ofBindings_related (related : List.Forall₂ (EntryRelated R) vars vars') (out : Option Stream) :
    (ofBindings vars out).Related R (ofBindings vars' out) :=
  ⟨foldl_setIn_related related .nil, rfl⟩

theorem Related.mono {R' : Value → Value → Prop} {scope scope' : Scope} (related : scope.Related R scope')
    (weaker : ∀ v u, R v u → R' v u) : scope.Related R' scope' :=
  ⟨related.vars.imp fun _ _ entry => ⟨entry.1, weaker _ _ entry.2⟩, related.out⟩

end Scope

end Scopes

end Trampoline

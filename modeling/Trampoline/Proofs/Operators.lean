import Trampoline.Operator
import Trampoline.Proofs.Computations

set_option autoImplicit false

namespace Trampoline

theorem numbers_ok {β : Type} {a : Value} {y : Except Failure β} {f : Float → β → Except Failure Value}
    {result : Value}
    (applied : (do
      let x ← a.toNumber
      let z ← y
      f x z) = .ok result) : ∃ x z, f x z = .ok result := by
  obtain ⟨x, _, rest⟩ := bind_eq_ok.mp applied
  obtain ⟨z, _, made⟩ := bind_eq_ok.mp rest
  exact ⟨x, z, made⟩

theorem applyOperator_result (symbol : String) (a b result : Value)
    (applied : applyOperator symbol a b = .ok result) :
    (∃ x, result = .num x) ∨ (∃ t, result = .bool t) ∨ result = a ∨ result = b := by
  unfold applyOperator at applied
  split at applied
  · rename_i op _
    cases op with
    | add | sub | mul | div =>
        obtain ⟨x, z, made⟩ := numbers_ok applied
        cases made
        exact .inl ⟨_, rfl⟩
    | rem =>
        obtain ⟨x, z, made⟩ := numbers_ok applied
        split at made
        · cases made
          exact .inl ⟨_, rfl⟩
        · cases made
    | lt | gt | le | ge =>
        obtain ⟨x, z, made⟩ := numbers_ok applied
        cases made
        exact .inr (.inl ⟨_, rfl⟩)
    | eq | ne =>
        cases applied
        exact .inr (.inl ⟨_, rfl⟩)
    | and =>
        simp only [Operator.apply] at applied
        split at applied
        · cases applied
          exact .inr (.inr (.inr rfl))
        · cases applied
          exact .inr (.inl ⟨false, rfl⟩)
    | or =>
        simp only [Operator.apply] at applied
        split at applied
        · cases applied
          exact .inr (.inr (.inl rfl))
        · cases applied
          exact .inr (.inr (.inr rfl))
  · cases applied

theorem applyOperator_holds {P : Value → Prop} (num : ∀ x, P (.num x)) (bool : ∀ t, P (.bool t))
    (symbol : String) (a b result : Value) (left : P a) (right : P b)
    (applied : applyOperator symbol a b = .ok result) : P result := by
  rcases applyOperator_result symbol a b result applied with ⟨x, rfl⟩ | ⟨t, rfl⟩ | rfl | rfl
  · exact num x
  · exact bool t
  · exact left
  · exact right

inductive OperatorFailure (symbol : String) : Failure → Prop where
  | notNumber (got : Value) : OperatorFailure symbol (.notNumber got)
  | divideByZero : OperatorFailure symbol .divideByZero
  | remainderDomain (remainder : Operator.ofSymbol? symbol = some .rem) :
      OperatorFailure symbol .remainderDomain
  | unknownOperator (unknown : Operator.ofSymbol? symbol = none) :
      OperatorFailure symbol (.unknownOperator symbol)

section

variable {symbol : String}

theorem toNumber_error {v : Value} {cause : Failure} (failure : v.toNumber = .error cause) :
    OperatorFailure symbol cause := by
  cases v with
  | num x => cases failure
  | _ =>
      cases failure
      exact .notNumber _

theorem toDivisor_error {v : Value} {cause : Failure} (failure : v.toDivisor = .error cause) :
    OperatorFailure symbol cause := by
  rcases bind_eq_error.mp failure with number | ⟨x, _, zero⟩
  · exact toNumber_error number
  · split at zero
    · cases zero
      exact .divideByZero
    · cases zero

theorem numbers_error {β : Type} {a : Value} {y : Except Failure β}
    {f : Float → β → Except Failure Value} {cause : Failure}
    (second : ∀ cause, y = .error cause → OperatorFailure symbol cause)
    (last : ∀ x z, f x z = .error cause → OperatorFailure symbol cause)
    (failure : (do
      let x ← a.toNumber
      let z ← y
      f x z) = .error cause) : OperatorFailure symbol cause := by
  rcases bind_eq_error.mp failure with number | ⟨x, _, rest⟩
  · exact toNumber_error number
  · rcases bind_eq_error.mp rest with number | ⟨z, _, applied⟩
    · exact second cause number
    · exact last x z applied

end

theorem applyOperator_error (symbol : String) (a b : Value) (cause : Failure)
    (failure : applyOperator symbol a b = .error cause) : OperatorFailure symbol cause := by
  have plain {β : Type} {g : Float → β → Value} :
      ∀ x z, (pure (g x z) : Except Failure Value) = .error cause → OperatorFailure symbol cause := by
    intro x z impossible
    cases impossible
  unfold applyOperator at failure
  split at failure
  · rename_i op meaning
    cases op with
    | add | sub | mul | lt | gt | le | ge =>
        exact numbers_error (fun _ => toNumber_error) plain failure
    | div => exact numbers_error (fun _ => toDivisor_error) plain failure
    | rem =>
        refine numbers_error (fun _ => toDivisor_error) ?_ failure
        intro x y applied
        split at applied
        · cases applied
        · cases applied
          exact .remainderDomain meaning
    | and | or | eq | ne => cases failure
  · rename_i unknown
    cases failure
    exact .unknownOperator unknown

end Trampoline

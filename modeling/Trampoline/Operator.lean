import Trampoline.Failure

/-!
Binary operators on values. Both operands are already evaluated.
-/

set_option autoImplicit false

namespace Trampoline

inductive Operator where
  | add
  | sub
  | mul
  | div
  | rem
  | and
  | or
  | lt
  | gt
  | le
  | ge
  | eq
  | ne
deriving DecidableEq, Repr

namespace Operator

def ofSymbol? : String → Option Operator
  | "+" => some .add
  | "-" => some .sub
  | "*" => some .mul
  | "/" => some .div
  | "%" => some .rem
  | "&&" => some .and
  | "||" => some .or
  | "<" => some .lt
  | ">" => some .gt
  | "<=" => some .le
  | ">=" => some .ge
  | "==" => some .eq
  | "!=" => some .ne
  | _ => none

end Operator

namespace Value

def toNumber : Value → Except Failure Float
  | .num x => .ok x
  | v => .error (.notNumber v)

def toDivisor (v : Value) : Except Failure Float := do
  let x ← v.toNumber
  if x == 0 then .error .divideByZero else .ok x

/-- The left operand is checked before the right one. -/
def arithmetic (f : Float → Float → Float) (a b : Value) : Except Failure Value := do
  let x ← a.toNumber
  let y ← b.toNumber
  return .num (f x y)

def comparison (p : Float → Float → Bool) (a b : Value) : Except Failure Value := do
  let x ← a.toNumber
  let y ← b.toNumber
  return .bool (p x y)

def quotient (a b : Value) : Except Failure Value := do
  let x ← a.toNumber
  let y ← b.toDivisor
  return .num (x / y)

/-- The remainder has the sign of the dividend. -/
def remainder (a b : Value) : Except Failure Value := do
  let x ← a.toNumber
  let y ← b.toDivisor
  match Binary64.remainder? x y with
  | some r => return .num r
  | none => .error .remainderDomain

end Value

namespace Operator

def apply (op : Operator) (a b : Value) : Except Failure Value :=
  match op with
  | .add => Value.arithmetic (· + ·) a b
  | .sub => Value.arithmetic (· - ·) a b
  | .mul => Value.arithmetic (· * ·) a b
  | .div => Value.quotient a b
  | .rem => Value.remainder a b
  | .and => .ok (if a.truthy then b else .no)
  | .or => .ok (if a.truthy then a else b)
  | .lt => Value.comparison (fun x y => decide (x < y)) a b
  | .gt => Value.comparison (fun x y => decide (y < x)) a b
  | .le => Value.comparison (fun x y => decide (x ≤ y)) a b
  | .ge => Value.comparison (fun x y => decide (y ≤ x)) a b
  | .eq => .ok (.bool (a.same b))
  | .ne => .ok (.bool (!a.same b))

end Operator

def applyOperator (symbol : String) (a b : Value) : Except Failure Value :=
  match Operator.ofSymbol? symbol with
  | some op => op.apply a b
  | none => .error (.unknownOperator symbol)

end Trampoline

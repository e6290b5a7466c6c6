/-!
Exact arithmetic on binary64 numbers: a finite float is `mantissa * 2 ^ exponent`, and a ratio of
two naturals is rounded to the nearest float, ties to the even mantissa.
-/

set_option autoImplicit false

namespace Trampoline.Binary64

inductive Decoded where
  | nan
  | infinite (negative : Bool)
  | finite (negative : Bool) (mantissa : Nat) (exponent : Int)
deriving DecidableEq, Repr

def decode (x : Float) : Decoded :=
  let bits := x.toBits.toNat
  let negative := decide (bits / Nat.pow 2 63 = 1)
  let biased : Nat := bits / Nat.pow 2 52 % 2048
  let fraction : Nat := bits % Nat.pow 2 52
  if biased = 2047 then
    if fraction = 0 then .infinite negative else .nan
  else if biased = 0 then .finite negative fraction (-1074)
  else .finite negative (fraction + Nat.pow 2 52) ((biased : Int) - 1075)

/-- Two floats with the same bits; unlike the numeric comparison it separates the zeros. -/
def same (x y : Float) : Bool := x.toBits == y.toBits

/-- The float `mantissa * 2 ^ exponent` for a mantissa of at most `2 ^ 53` and an exponent of at
least `-1074`, infinite when that is too large. A mantissa of `2 ^ 53` carries into the exponent. -/
def assemble (negative : Bool) (mantissa : Nat) (exponent : Int) : Float :=
  let magnitude := (exponent + 1074).toNat * Nat.pow 2 52 + mantissa
  let bounded := min magnitude (2047 * Nat.pow 2 52)
  Float.ofBits (UInt64.ofNat (if negative then Nat.pow 2 63 + bounded else bounded))

/-- `numerator / (denominator * 2 ^ exponent)` as a pair of naturals. -/
def rescale (numerator denominator : Nat) (exponent : Int) : Nat × Nat :=
  if exponent < 0 then (numerator * Nat.pow 2 (-exponent).toNat, denominator)
  else (numerator, denominator * Nat.pow 2 exponent.toNat)

/-- The exponent that leaves a 53 bit quotient, or the least one for subnormal results. -/
def scaleOf (numerator denominator : Nat) : Int :=
  let guess : Int := (numerator.log2 : Int) - (denominator.log2 : Int) - 53
  let (n, d) := rescale numerator denominator guess
  max (if Nat.pow 2 53 ≤ n / d then guess + 1 else guess) (-1074)

/-- The float nearest to `numerator / denominator`, for a positive denominator. -/
def ofRatio (negative : Bool) (numerator denominator : Nat) : Float :=
  if numerator = 0 then assemble negative 0 (-1074)
  else
    let exponent := scaleOf numerator denominator
    let (n, d) := rescale numerator denominator exponent
    let quotient := n / d
    let excess := 2 * (n % d)
    let up := d < excess ∨ (excess = d ∧ quotient % 2 = 1)
    assemble negative (if up then quotient + 1 else quotient) exponent

/-- The magnitude of a finite float as an exact ratio. -/
def ratio (mantissa : Nat) (exponent : Int) : Nat × Nat :=
  if exponent < 0 then (mantissa, Nat.pow 2 (-exponent).toNat) else (mantissa * Nat.pow 2 exponent.toNat, 1)

/-- The exact value of a float that is a whole number. -/
def toInt? (x : Float) : Option Int :=
  match decode x with
  | .finite negative mantissa exponent =>
      let (n, d) := ratio mantissa exponent
      if n % d = 0 then some (if negative then -((n / d : Nat) : Int) else ((n / d : Nat) : Int)) else none
  | _ => none

/-- The exact remainder of a truncating division, with the sign of the dividend. There is none
for an infinite dividend, unless the divisor is not a number. The divisor is not zero. -/
def remainder? (x y : Float) : Option Float :=
  match decode x, decode y with
  | .nan, _ => some x
  | _, .nan => some y
  | .infinite _, _ => none
  | .finite .., .infinite _ => some x
  | .finite negative mx ex, .finite _ my ey =>
      let shared := min ex ey
      let left := mx * Nat.pow 2 (ex - shared).toNat
      let right := my * Nat.pow 2 (ey - shared).toNat
      let (n, d) := ratio (left % right) shared
      some (ofRatio negative n d)

end Trampoline.Binary64

import Trampoline.Number.Binary64

/-!
Decimal text of binary64 numbers: the fewest digits that read back to the same number, positional
for decimal exponents from -4 to 15 and with an exponent mark otherwise.
-/

set_option autoImplicit false

namespace Trampoline.Decimal

open Binary64

/-- `digits * 10 ^ exponent` with no trailing zero among the digits. -/
structure Scientific where
  digits : Nat
  exponent : Int
deriving DecidableEq, Repr

def Scientific.toFloat (negative : Bool) (s : Scientific) : Float :=
  if s.exponent < 0 then ofRatio negative s.digits (Nat.pow 10 (-s.exponent).toNat)
  else ofRatio negative (s.digits * Nat.pow 10 s.exponent.toNat) 1

def digitsOf (n : Nat) : List Char := Nat.toDigits 10 n

/-- The least `k`, up to a bound, with `denominator ≤ numerator * 10 ^ k`. -/
def leadingZeros (denominator : Nat) : Nat → Nat → Nat
  | 0, _ => 0
  | bound + 1, numerator =>
      if denominator ≤ numerator then 0 else leadingZeros denominator bound (numerator * 10) + 1

/-- The power of ten of the first significant digit of a positive ratio. -/
def magnitude (numerator denominator : Nat) : Int :=
  if denominator ≤ numerator then ((digitsOf (numerator / denominator)).length : Int) - 1
  else -(leadingZeros denominator 400 numerator : Int)

def trimZeros : Nat → Scientific → Scientific
  | 0, s => s
  | bound + 1, s =>
      if s.digits ≠ 0 ∧ s.digits % 10 = 0 then trimZeros bound ⟨s.digits / 10, s.exponent + 1⟩ else s

/-- The nearest decimal on the grid of multiples of `10 ^ exponent` that reads back as `x`. -/
def onGrid? (x : Float) (numerator denominator : Nat) (exponent : Int) : Option Scientific :=
  let (n, d) :=
    if exponent < 0 then (numerator * Nat.pow 10 (-exponent).toNat, denominator)
    else (numerator, denominator * Nat.pow 10 exponent.toNat)
  let below : Scientific := ⟨n / d, exponent⟩
  let above : Scientific := ⟨n / d + 1, exponent⟩
  let readsBack (s : Scientific) := same (s.toFloat false) x
  let nearerBelow := 2 * (n % d) < d ∨ (2 * (n % d) = d ∧ n / d % 2 = 0)
  let first := if nearerBelow then below else above
  let second := if nearerBelow then above else below
  if readsBack first then some first else if readsBack second then some second else none

def shortestFrom (x : Float) (numerator denominator : Nat) (exponent : Int) : Nat → Scientific
  | 0 => ⟨numerator / denominator, 0⟩
  | more + 1 =>
      match onGrid? x numerator denominator exponent with
      | some s => trimZeros 20 s
      | none => shortestFrom x numerator denominator (exponent - 1) more

/-- The shortest decimal that reads back as the positive float `mantissa * 2 ^ exponent`; of the
shortest ones the nearest. Seventeen digits always suffice. -/
def shortest (mantissa : Nat) (exponent : Int) : Scientific :=
  let (n, d) := ratio mantissa exponent
  shortestFrom (ofRatio false n d) n d (magnitude n d) 18

/-- An exponent has a sign and at least two digits. -/
def exponentText (exponent : Int) : List Char :=
  let digits := digitsOf exponent.natAbs
  let padded := if digits.length < 2 then '0' :: digits else digits
  'e' :: (if exponent < 0 then '-' else '+') :: padded

/-- A nonzero decimal; it always shows a point or an exponent. -/
def layout (s : Scientific) : List Char :=
  let digits := digitsOf s.digits
  let point : Int := s.exponent + digits.length
  if -4 ≤ point - 1 ∧ point - 1 < 16 then
    if point ≤ 0 then ['0', '.'] ++ List.replicate (-point).toNat '0' ++ digits
    else if (digits.length : Int) ≤ point then
      digits ++ List.replicate (point - digits.length).toNat '0' ++ ['.', '0']
    else digits.take point.toNat ++ '.' :: digits.drop point.toNat
  else
    match digits with
    | [] => []
    | [digit] => digit :: exponentText (point - 1)
    | digit :: more => digit :: '.' :: more ++ exponentText (point - 1)

def unsigned (mantissa : Nat) (exponent : Int) : List Char :=
  if mantissa = 0 then ['0', '.', '0'] else layout (shortest mantissa exponent)

/-- The text of a float as a float: `1.0`, `1e+16`, `-0.0`, `inf`, `nan`. -/
def text (x : Float) : String :=
  match decode x with
  | .nan => "nan"
  | .infinite negative => if negative then "-inf" else "inf"
  | .finite negative mantissa exponent =>
      let body := unsigned mantissa exponent
      String.ofList (if negative then '-' :: body else body)

/-- The text of a float as a number: a whole number shows all its digits and no point. -/
def plain (x : Float) : String :=
  match toInt? x with
  | some n =>
      let digits := digitsOf n.natAbs
      String.ofList (if n < 0 then '-' :: digits else digits)
  | none => text x

def isDigit (c : Char) : Bool := '0' ≤ c && c ≤ '9'

def digitValue (c : Char) : Nat := c.toNat - '0'.toNat

def natOf (digits : List Char) : Nat := digits.foldl (fun n c => 10 * n + digitValue c) 0

/-- The number written by digits with at most one point. -/
def ofLiteral (cs : List Char) : Float :=
  let whole := cs.takeWhile (· != '.')
  let fraction := (cs.dropWhile (· != '.')).drop 1
  ofRatio false (natOf (whole ++ fraction)) (Nat.pow 10 fraction.length)

end Trampoline.Decimal

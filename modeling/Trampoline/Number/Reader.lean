import Trampoline.Number.Decimal
import Trampoline.Text.WholeNumber

/-!
Reading a signed decimal with an optional exponent, an infinity or a not-a-number. As in whole
numbers, blanks may stand around it, digits are those of any script, and single underscores may stand
between digits.
-/

set_option autoImplicit false

namespace Trampoline.Decimal

def splitSign : List Char → Bool × List Char
  | '-' :: cs => (true, cs)
  | '+' :: cs => (false, cs)
  | cs => (false, cs)

def infinity (negative : Bool) : Float := Binary64.assemble negative (Nat.pow 2 53) 1000

/-- `digits * 10 ^ exponent`, where exponents far outside the range of floats are not expanded. -/
def scaled (negative : Bool) (digits : List Char) (exponent : Int) : Float :=
  let n := natOf digits
  if n = 0 then Binary64.ofRatio negative 0 1
  else if 400 < exponent then infinity negative
  else if exponent + digits.length < -400 then Binary64.ofRatio negative 0 1
  else Scientific.toFloat negative ⟨n, exponent⟩

/-- An exponent mark with digits, or nothing. -/
def readExponent? : List Char → Option Int
  | [] => some 0
  | c :: cs =>
      let (negative, digits) := splitSign cs
      if (c == 'e' || c == 'E') && !digits.isEmpty && digits.all isDigit then
        some (if negative then -(natOf digits : Int) else natOf digits)
      else none

/-- Digits with an optional point and an optional exponent. -/
def readUnsigned? (negative : Bool) (cs : List Char) : Option Float :=
  let whole := cs.takeWhile isDigit
  let (fraction, rest) :=
    match cs.dropWhile isDigit with
    | '.' :: more => (more.takeWhile isDigit, more.dropWhile isDigit)
    | rest => ([], rest)
  if whole.isEmpty && fraction.isEmpty then none
  else (readExponent? rest).map fun exponent =>
    scaled negative (whole ++ fraction) (exponent - fraction.length)

/-- The digits of all scripts become those of one. -/
def plainDigit (c : Char) : Char :=
  match Text.digit? c with
  | some d => Char.ofNat ('0'.toNat + d)
  | none => c

/-- The text without its underscores, each of which has to stand between two digits. -/
def joinDigits? : List Char → Option (List Char)
  | [] => some []
  | a :: '_' :: b :: cs =>
      if isDigit a && isDigit b then (joinDigits? (b :: cs)).map (a :: ·) else none
  | a :: cs => if a = '_' then none else (joinDigits? cs).map (a :: ·)

def readJoined? (text : List Char) : Option Float :=
  let (negative, cs) := splitSign text
  match String.ofList (cs.map Char.toLower) with
  | "inf" => some (infinity negative)
  | "infinity" => some (infinity negative)
  | "nan" => some (infinity false - infinity false)
  | _ => readUnsigned? negative cs

def read? (s : String) : Option Float :=
  (joinDigits? ((Text.trimBy Text.isMargin s.toList).map plainDigit)).bind readJoined?

end Trampoline.Decimal

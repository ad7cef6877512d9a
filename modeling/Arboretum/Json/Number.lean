import Arboretum.Numeric.Scalar

/-!
Number literals of JSON text and their values. An integer literal that fits 64 bits is an exact
integer. Any other literal is a double, found from as many leading digits as fit 64 bits and one
power of ten, with one rounding to nearest at each step.
-/

namespace Arboretum

/-- A number as it is written. Digits are numbers below ten. -/
structure NumberLiteral where
  negative : Bool
  whole : List Nat
  fraction : Option (List Nat)
  /-- The sign of the exponent, true for minus, and its digits. -/
  exponent : Option (Bool × List Nat)
  deriving Repr

/-- The value of a number literal. -/
inductive NumberValue where
  | integer (value : Int)
  | double (value : Double)
  deriving Repr

namespace NumberLiteral

def ofDigits (digits : List Nat) : Nat := digits.foldl (fun n digit => 10 * n + digit) 0

/-- Append digits to a significand as long as it fits 64 bits; the digits left over follow. -/
def absorb (significand : Nat) : List Nat → Nat × List Nat
  | [] => (significand, [])
  | digit :: rest =>
    if 10 * significand + digit < UInt64.size then absorb (10 * significand + digit) rest
    else (significand, digit :: rest)

def tenPower (exponent : Nat) : Double := FloatWord.ofNat (Nat.pow 10 exponent)

/-- Divide by a power of ten, by at most `10 ^ 308` at a time. -/
def divideByTenPower (x : Double) (exponent : Nat) : Double :=
  if exponent ≤ 308 then Score.div x (tenPower exponent)
  else if Numeric.agrees x Numeric.zero then x
  else divideByTenPower (Score.div x (tenPower 308)) (exponent - 308)
termination_by exponent

/-- `significand * 10 ^ exponent` as a double; nothing if it is beyond the largest one. -/
def scale? (significand : Nat) (exponent : Int) : Option Double :=
  let x : Double := FloatWord.ofNat significand
  if exponent < 0 then some (divideByTenPower x exponent.natAbs)
  else if significand = 0 then some x
  else if 308 < exponent then none
  else
    let product := Score.mul x (tenPower exponent.natAbs)
    match FloatWord.unpack product with
    | .finite _ _ _ => some product
    | _ => none

def toDouble? (literal : NumberLiteral) : Option Double :=
  let (head, dropped) := absorb 0 literal.whole
  let fraction := literal.fraction.getD []
  let (significand, unused) := absorb head fraction
  let shift : Int := dropped.length - (fraction.length - unused.length : Nat)
  let power : Int :=
    match literal.exponent with
    | none => 0
    | some (true, digits) => -(ofDigits digits : Int)
    | some (false, digits) => ofDigits digits
  (scale? significand (shift + power)).map fun x => if literal.negative then Score.neg x else x

/-- The value of a literal. Negative zero is a double even when it is written as an integer. -/
def value? (literal : NumberLiteral) : Option NumberValue :=
  let n := ofDigits literal.whole
  if literal.fraction.isSome || literal.exponent.isSome then literal.toDouble?.map .double
  else if !literal.negative && n < UInt64.size then some (.integer n)
  else if literal.negative && 0 < n && n ≤ Nat.pow 2 63 then some (.integer (-n))
  else literal.toDouble?.map .double

end NumberLiteral

namespace NumberValue

/-- An integer as the nearest double. -/
def toDouble : NumberValue → Double
  | integer n => FloatWord.ofRatio (n < 0) n.natAbs 1
  | double x => x

/-- An integer as the nearest single; a double is rounded once more. -/
def toSingle : NumberValue → Single
  | integer n => FloatWord.ofRatio (n < 0) n.natAbs 1
  | double x => FloatWord.convert x

end NumberValue

end Arboretum

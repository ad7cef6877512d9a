/-!
Binary floating-point formats as bit patterns. A word is read as a sign, a significand and a
power of two; a quotient of natural numbers is rounded to the nearest word, a tie to the even
significand. Both directions are exact natural-number arithmetic, so a word never loses its bits
on the way through.
-/

namespace Arboretum

/-- A binary interchange format. `precision` counts the bits of a normal significand, the leading
one included. -/
structure FloatFormat where
  precision : Nat
  exponentWidth : Nat
  deriving DecidableEq, Repr

/-- What a bit pattern stands for; a finite one is `± significand * 2 ^ exponent`. -/
inductive FloatDatum where
  | nan
  | infinite (negative : Bool)
  | finite (negative : Bool) (significand : Nat) (exponent : Int)
  deriving DecidableEq, Repr

namespace FloatFormat

def binary32 : FloatFormat := ⟨24, 8⟩

def binary64 : FloatFormat := ⟨53, 11⟩

variable (f : FloatFormat)

def width : Nat := f.precision + f.exponentWidth

/-- The weight of the lowest exponent bit: fractions lie below it. -/
def fractionBound : Nat := Nat.pow 2 (f.precision - 1)

def signBit : Nat := Nat.pow 2 (f.width - 1)

/-- The pattern of positive infinity; larger patterns without the sign are not numbers. -/
def infinity : Nat := (Nat.pow 2 f.exponentWidth - 1) * f.fractionBound

/-- The power of two that the last bit of a subnormal stands for. -/
def leastExponent : Int := 3 - Nat.pow 2 (f.exponentWidth - 1) - f.precision

def isNegative (bits : Nat) : Bool := f.signBit ≤ bits

/-- The pattern without its sign. -/
def magnitude (bits : Nat) : Nat := bits % f.signBit

def withSign (negative : Bool) (magnitude : Nat) : Nat :=
  if negative then f.signBit + magnitude else magnitude

def isNaN (bits : Nat) : Bool := f.infinity < f.magnitude bits

def unpack (bits : Nat) : FloatDatum :=
  let magnitude := f.magnitude bits
  let negative := f.isNegative bits
  if f.infinity < magnitude then .nan
  else if magnitude = f.infinity then .infinite negative
  else
    let field := magnitude / f.fractionBound
    let fraction := magnitude % f.fractionBound
    if field = 0 then .finite negative fraction f.leastExponent
    else .finite negative (f.fractionBound + fraction) (f.leastExponent + (field - 1))

/-- The place of a number in the order of its format; the two zeros share one. Nothing that is
not a number has a place. -/
def rank? (bits : Nat) : Option Int :=
  if f.isNaN bits then none
  else if f.isNegative bits then some (-(f.magnitude bits : Int))
  else some (f.magnitude bits)

end FloatFormat

/-- The quotient rounded to the nearest natural number, a tie to the even neighbour. -/
def divideToEven (num den : Nat) : Nat :=
  let quotient := num / den
  let twice := 2 * (num % den)
  if den < twice ∨ (twice = den ∧ quotient % 2 = 1) then quotient + 1 else quotient

/-- `num / den * 2 ^ exponent` as a quotient of natural numbers. -/
def scaleByTwoPower (num den : Nat) (exponent : Int) : Nat × Nat :=
  if exponent < 0 then (num, den * Nat.pow 2 exponent.natAbs)
  else (num * Nat.pow 2 exponent.natAbs, den)

/-- The greatest power of two that is at most `num / den`, for a positive quotient. -/
def floorLog2 (num den : Nat) : Int :=
  let guess : Int := num.log2 - den.log2
  let scaled := scaleByTwoPower num den (-guess)
  if scaled.1 < scaled.2 then guess - 1 else guess

namespace FloatFormat

variable (f : FloatFormat)

/-- The word nearest to `± num / den`, a tie to the even one. Beyond the largest number it is an
infinity, and below half the smallest it is a zero; both keep the sign. Consecutive patterns are
consecutive numbers, so a significand that rounds up to the next power of two carries into the
exponent by itself. -/
def round (negative : Bool) (num den : Nat) : Nat :=
  if num = 0 ∨ den = 0 then f.withSign negative 0
  else
    let exponent := max f.leastExponent (floorLog2 num den - (f.precision - 1 : Nat))
    let scaled := scaleByTwoPower num den (-exponent)
    let steps := (exponent - f.leastExponent).toNat
    f.withSign negative
      (min f.infinity (steps * f.fractionBound + divideToEven scaled.1 scaled.2))

/-- A word of one format in another. A number is rounded; a pattern that is not a number keeps its
sign and the high end of its payload, and becomes quiet. -/
def convert (target : FloatFormat) (bits : Nat) : Nat :=
  match f.unpack bits with
  | .nan =>
    let fraction := f.magnitude bits % f.fractionBound
    let payload := fraction * target.fractionBound / f.fractionBound
    let quiet := target.fractionBound / 2
    target.withSign (f.isNegative bits) (target.infinity + quiet + payload % quiet)
  | .infinite negative => target.withSign negative target.infinity
  | .finite negative significand exponent =>
    let scaled := scaleByTwoPower significand 1 exponent
    target.round negative scaled.1 scaled.2

/-- A number cut toward zero and confined to `0 … limit`; no number at all is zero. -/
def truncateTo (limit bits : Nat) : Nat :=
  match f.unpack bits with
  | .nan => 0
  | .infinite negative => if negative then 0 else limit
  | .finite negative significand exponent =>
    if negative then 0
    else
      let scaled := scaleByTwoPower significand 1 exponent
      min limit (scaled.1 / scaled.2)

/-- The natural number that a word is exactly, if it is one. Negative zero is zero. -/
def toNat? (bits : Nat) : Option Nat :=
  match f.unpack bits with
  | .nan | .infinite _ => none
  | .finite negative significand exponent =>
    if negative ∧ significand ≠ 0 then none
    else
      let scaled := scaleByTwoPower significand 1 exponent
      if scaled.1 % scaled.2 = 0 then some (scaled.1 / scaled.2) else none

end FloatFormat

end Arboretum

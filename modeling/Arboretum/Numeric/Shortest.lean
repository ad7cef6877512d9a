import Arboretum.Numeric.FloatFormat

/-!
The shortest decimal text of a floating-point word: the fewest digits that read back to the same
word and, among those, the ones nearest to its value. "Reads back" is asked of `FloatFormat.round`
itself, so a printed number cannot mean another word.
-/

namespace Arboretum

/-- The number `digits * 10 ^ exponent`. -/
structure Decimal where
  digits : Nat
  exponent : Int
  deriving DecidableEq, Repr

def decimalLength (n : Nat) : Nat := (Nat.toDigits 10 n).length

/-- `num / den * 10 ^ exponent` as a quotient of natural numbers. -/
def scaleByTenPower (num den : Nat) (exponent : Int) : Nat × Nat :=
  if exponent < 0 then (num, den * Nat.pow 10 exponent.natAbs)
  else (num * Nat.pow 10 exponent.natAbs, den)

/-- The greatest power of ten that is at most `num / den`, for a positive quotient. -/
def floorLog10 (num den : Nat) : Int :=
  if den ≤ num then decimalLength (num / den) - 1
  else -(decimalLength ((den - 1) / num))

namespace FloatFormat

variable (f : FloatFormat)

/-- Whether the nearest word to the decimal is the given one. -/
def readsBack (pattern : Nat) (d : Decimal) : Bool :=
  let scaled := scaleByTenPower d.digits 1 d.exponent
  f.round false scaled.1 scaled.2 == pattern

/-- The nearer of the two neighbours of `num / den` on the grid of multiples of `10 ^ exponent`
that reads back to the word, a tie to the even one. -/
def onGrid? (pattern num den : Nat) (exponent : Int) : Option Decimal :=
  let scaled := scaleByTenPower num den (-exponent)
  let below : Decimal := ⟨scaled.1 / scaled.2, exponent⟩
  let above : Decimal := ⟨scaled.1 / scaled.2 + 1, exponent⟩
  let twice := 2 * (scaled.1 % scaled.2)
  let belowIsNearer := twice < scaled.2 ∨ (twice = scaled.2 ∧ below.digits % 2 = 0)
  match f.readsBack pattern below, f.readsBack pattern above with
  | true, true => some (if belowIsNearer then below else above)
  | true, false => some below
  | false, true => some above
  | false, false => none

/-- The decimal with the fewest digits that reads back to a positive word. Seventeen digits tell
any two words of either format apart. -/
def shortest? (pattern : Nat) : Option Decimal :=
  match f.unpack pattern with
  | .nan | .infinite _ => none
  | .finite _ significand exponent =>
    let ratio := scaleByTwoPower significand 1 exponent
    let leading := floorLog10 ratio.1 ratio.2
    (List.range 17).findSome? fun places =>
      f.onGrid? pattern ratio.1 ratio.2 (leading - (places : Nat))

end FloatFormat

/-- Where positional notation begins and ends, as bounds on the exponent of the leading digit. -/
structure DecimalLayout where
  leastPlain : Int
  greatestPlain : Int

namespace DecimalLayout

/-- A positive decimal in positional or scientific notation. The first always shows a fraction,
the second always the sign of its exponent. -/
def write (layout : DecimalLayout) (d : Decimal) : List Char :=
  let all := Nat.toDigits 10 d.digits
  let kept := (all.reverse.dropWhile (· == '0')).reverse
  let leading : Int := d.exponent + all.length - 1
  if layout.leastPlain ≤ leading ∧ leading ≤ layout.greatestPlain then
    if leading < 0 then
      '0' :: '.' :: (List.replicate (leading.natAbs - 1) '0' ++ kept)
    else
      let whole := leading.natAbs + 1
      let fraction := kept.drop whole
      kept.take whole ++ List.replicate (whole - kept.length) '0' ++
        '.' :: (if fraction.isEmpty then ['0'] else fraction)
  else
    let fraction := kept.drop 1
    kept.take 1 ++ (if fraction.isEmpty then [] else '.' :: fraction) ++
      'e' :: (if leading < 0 then '-' else '+') :: Nat.toDigits 10 leading.natAbs

/-- A floating-point word as text; nothing for one that is not a finite number. -/
def writeWord? (layout : DecimalLayout) (f : FloatFormat) (bits : Nat) : Option (List Char) :=
  let magnitude := f.magnitude bits
  if f.infinity ≤ magnitude then none
  else
    let sign := if f.isNegative bits then ['-'] else []
    if magnitude = 0 then some (sign ++ ['0', '.', '0'])
    else (f.shortest? magnitude).map fun d => sign ++ layout.write d

end DecimalLayout

end Arboretum

import Arboretum.Numeric.Scalar
import Arboretum.Proofs.Numeric.Rounding

/-!
The rational number that a floating-point word stands for, read off the fields of its pattern. The
significand and the exponent that a word is unpacked to make up this number, and a word is a natural
number exactly when the number is one.
-/

namespace Arboretum

def FloatDatum.value? : FloatDatum → Option ℚ
  | nan | infinite _ => none
  | finite negative significand exponent =>
    some (if negative then -(significand * 2 ^ exponent) else significand * 2 ^ exponent)

namespace FloatFormat

/-- The number of a pattern: a sign, a biased power of two, and a fraction of one that is added to
one, except where the exponent is zero and stands for the least power. The greatest exponent marks
what is not a number or not finite. -/
def value? (f : FloatFormat) (bits : Nat) : Option ℚ :=
  let fraction : ℚ := (bits % 2 ^ (f.precision - 1) : Nat) / 2 ^ (f.precision - 1)
  let exponent := bits / 2 ^ (f.precision - 1) % 2 ^ f.exponentWidth
  let bias : Int := 2 ^ (f.exponentWidth - 1) - 1
  let magnitude : ℚ :=
    if exponent = 0 then fraction * 2 ^ (1 - bias) else (1 + fraction) * 2 ^ (exponent - bias)
  if exponent = 2 ^ f.exponentWidth - 1 then none
  else some (if 2 ^ (f.precision + f.exponentWidth - 1) ≤ bits then -magnitude else magnitude)

section Fields

variable {f : FloatFormat} (hp : 1 ≤ f.precision)

include hp

theorem signBit_eq : f.signBit = f.fractionBound * 2 ^ f.exponentWidth := by
  rw [signBit, fractionBound, width, Nat.pow_eq, Nat.pow_eq, ← Nat.pow_add]
  congr 1
  omega

private theorem magnitude_div (bits : Nat) :
    f.magnitude bits / f.fractionBound = bits / f.fractionBound % 2 ^ f.exponentWidth := by
  rw [magnitude, signBit_eq hp, Nat.mod_mul_right_div_self]

private theorem magnitude_mod (bits : Nat) :
    f.magnitude bits % f.fractionBound = bits % f.fractionBound := by
  rw [magnitude, signBit_eq hp, Nat.mod_mul_right_mod]

theorem infinity_le_iff (bits : Nat) : f.infinity ≤ f.magnitude bits ↔
    bits / f.fractionBound % 2 ^ f.exponentWidth = 2 ^ f.exponentWidth - 1 := by
  have hbound := f.fractionBound_pos
  have hlt := Nat.mod_lt (bits / f.fractionBound) (Nat.two_pow_pos f.exponentWidth)
  rw [infinity, Nat.pow_eq, ← Nat.le_div_iff_mul_le hbound, magnitude_div hp]
  omega

theorem leastExponent_eq :
    f.leastExponent = 1 - ((2 : Int) ^ (f.exponentWidth - 1) - 1) - (f.precision - 1 : Nat) := by
  rw [leastExponent, Nat.pow_eq, Nat.cast_sub hp]
  push_cast
  omega

/-- The number that the fields of a word show is the one it is unpacked to. -/
theorem value?_eq (bits : Nat) : f.value? bits = (f.unpack bits).value? := by
  have hscale : ∀ (x : ℚ) (k : Int),
      x / 2 ^ (f.precision - 1) * 2 ^ k = x * 2 ^ (k - (f.precision - 1 : Nat)) := by
    intro x k
    rw [zpow_sub₀ two_ne_zero, zpow_natCast, mul_div_assoc', div_mul_eq_mul_div]
  have hone : (1 : ℚ) = f.fractionBound / 2 ^ (f.precision - 1) := by
    rw [fractionBound, Nat.pow_eq, Nat.cast_pow, Nat.cast_ofNat, div_self (by positivity)]
  have hsign : f.isNegative bits = decide (2 ^ (f.precision + f.exponentWidth - 1) ≤ bits) := rfl
  simp only [value?, unpack]
  rw [← Nat.pow_eq, ← fractionBound]
  by_cases hfinite : f.infinity ≤ f.magnitude bits
  · rw [if_pos ((infinity_le_iff hp bits).mp hfinite)]
    split
    · rfl
    · rw [if_pos (by omega)]
      rfl
  · rw [if_neg (mt (infinity_le_iff hp bits).mpr hfinite),
      if_neg (show ¬ f.infinity < f.magnitude bits by omega),
      if_neg (show ¬ f.magnitude bits = f.infinity by omega), magnitude_div hp, magnitude_mod hp,
      hsign]
    generalize bits / f.fractionBound % 2 ^ f.exponentWidth = exponent
    by_cases hzero : exponent = 0
    · simp only [if_pos hzero, FloatDatum.value?, decide_eq_true_eq, hscale, leastExponent_eq hp]
    · have hexponent : (exponent : Int) - (2 ^ (f.exponentWidth - 1) - 1) -
          (f.precision - 1 : Nat) = f.leastExponent + (exponent - 1) := by
        rw [leastExponent_eq hp]
        omega
      rw [hone, ← add_div]
      simp only [if_neg hzero, FloatDatum.value?, decide_eq_true_eq, hscale, hexponent,
        Nat.cast_add]

end Fields

variable {f : FloatFormat} {bits n : Nat}

theorem quotient_eq_natCast_iff (n num : Nat) {den : Nat} (hden : 0 < den) :
    (num / den : ℚ) = n ↔ num % den = 0 ∧ num / den = n := by
  rw [div_eq_iff (Nat.cast_ne_zero.mpr hden.ne')]
  constructor
  · intro h
    have hnum : num = n * den := by exact_mod_cast h
    exact ⟨hnum ▸ Nat.mul_mod_left n den, hnum ▸ Nat.mul_div_cancel n hden⟩
  · rintro ⟨hrest, rfl⟩
    exact_mod_cast (Nat.div_mul_cancel (Nat.dvd_of_mod_eq_zero hrest)).symm

/-- A word is a natural number where its value is. -/
theorem toNat?_eq_some_iff (hp : 1 ≤ f.precision) :
    f.toNat? bits = some n ↔ f.value? bits = some (n : ℚ) := by
  rw [value?_eq hp, toNat?]
  cases f.unpack bits with
  | nan => simp [FloatDatum.value?]
  | infinite negative => simp [FloatDatum.value?]
  | finite negative significand exponent =>
    have hpos : 0 < (scaleByTwoPower significand 1 exponent).2 := scaleByTwoPower_pos Nat.one_pos
    have hscaled := @scaleByTwoPower_eq significand 1 exponent
    rw [Nat.cast_one, div_one] at hscaled
    have hnatural := quotient_eq_natCast_iff n (scaleByTwoPower significand 1 exponent).1 hpos
    rw [hscaled] at hnatural
    simp only [FloatDatum.value?, Option.some.injEq]
    by_cases hbelow : negative = true ∧ significand ≠ 0
    · obtain ⟨rfl, hsignificand⟩ := hbelow
      have hvalue : (0 : ℚ) < significand * 2 ^ exponent := by positivity
      have hn : (0 : ℚ) ≤ n := Nat.cast_nonneg n
      rw [if_pos ⟨rfl, hsignificand⟩, if_pos rfl]
      exact ⟨fun h => (Option.some_ne_none _ h.symm).elim, fun h => by linarith⟩
    · -- A negative word is zero here, and its sign does not matter.
      have hvalue : (if negative = true then -(significand * 2 ^ exponent : ℚ)
          else significand * 2 ^ exponent) = significand * 2 ^ exponent := by
        split
        case isTrue hnegative =>
          rw [not_not.mp (not_and.mp hbelow hnegative), Nat.cast_zero, zero_mul, neg_zero]
        case isFalse => rfl
      rw [if_neg hbelow, hvalue, hnatural, Option.ite_none_right_eq_some, Option.some.injEq]

end FloatFormat

namespace FloatWord

/-- The number that a word stands for, if it is one. -/
def value? {α : Type} [FloatWord α] (x : α) : Option ℚ := (format α).value? (pattern x)

end FloatWord

end Arboretum

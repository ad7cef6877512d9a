import Arboretum.Numeric.Shortest
import Arboretum.Proofs.Numeric.Rounding
import Mathlib.Data.Nat.Cast.Order.Field

/-!
The shortest decimal of a finite word is always found, and it reads back to that word. Sixteen
digits behind the leading one are fine enough that the nearest decimal is nearer to the word than
half a unit in its last place.
-/

namespace Arboretum

variable {num den n : Nat} {exponent : Int}

private theorem scaleByTenPower_eq : ((scaleByTenPower num den exponent).1 : ℚ) /
    (scaleByTenPower num den exponent).2 = num / den * 10 ^ exponent :=
  quotient_scaled 10 num den exponent

private theorem scaleByTenPower_pos (hden : 0 < den) :
    0 < (scaleByTenPower num den exponent).2 := by
  rw [scaleByTenPower]
  split
  · exact Nat.mul_pos hden (Nat.pow_pos (by decide))
  · exact hden

private theorem lt_pow_decimalLength : n < 10 ^ decimalLength n :=
  (Nat.length_toDigits_le_iff (by decide) Nat.length_toDigits_pos).mp (Nat.le_refl _)

private theorem pow_decimalLength_le (h : 0 < n) : 10 ^ (decimalLength n - 1) ≤ n := by
  rcases Nat.eq_zero_or_pos (decimalLength n - 1) with hzero | hpos
  · rw [hzero]
    exact h
  · by_contra hlt
    have := (Nat.length_toDigits_le_iff (by decide) hpos).mpr (Nat.lt_of_not_le hlt)
    rw [← decimalLength] at this
    omega

theorem pow_floorLog10_le (hnum : 0 < num) (hden : 0 < den) :
    (10 : ℚ) ^ floorLog10 num den ≤ num / den := by
  have hpos : (0 : ℚ) < den := Nat.cast_pos.mpr hden
  rw [floorLog10]
  split
  case isTrue hle =>
    have hlow := pow_decimalLength_le (Nat.div_pos hle hden)
    have hlength : 1 ≤ decimalLength (num / den) := Nat.length_toDigits_pos
    calc (10 : ℚ) ^ ((decimalLength (num / den) : Int) - 1)
        = (10 ^ (decimalLength (num / den) - 1) : Nat) := by
          rw [← Nat.cast_pred hlength, zpow_natCast]
          push_cast
          rfl
      _ ≤ (num / den : Nat) := Nat.cast_le.mpr hlow
      _ ≤ num / den := Nat.cast_div_le
  case isFalse hlt =>
    have hhigh := lt_pow_decimalLength (n := (den - 1) / num)
    rw [Nat.div_lt_iff_lt_mul hnum] at hhigh
    rw [zpow_neg, zpow_natCast, inv_le_comm₀ (by positivity) (by positivity), inv_div,
      div_le_iff₀ (Nat.cast_pos.mpr hnum)]
    have hle : den ≤ 10 ^ decimalLength ((den - 1) / num) * num := by omega
    exact_mod_cast hle

namespace Decimal

def value (d : Decimal) : ℚ := d.digits * 10 ^ d.exponent

end Decimal

namespace FloatFormat

variable {f : FloatFormat} {pattern : Nat} {d : Decimal}

theorem readsBack_iff : f.readsBack pattern d = true ↔
    f.round false (scaleByTenPower d.digits 1 d.exponent).1
      (scaleByTenPower d.digits 1 d.exponent).2 = pattern := by
  rw [readsBack]
  exact beq_iff_eq

private theorem value_scaled : ((scaleByTenPower d.digits 1 d.exponent).1 : ℚ) /
    (scaleByTenPower d.digits 1 d.exponent).2 = d.value := by
  rw [scaleByTenPower_eq, Nat.cast_one, div_one, Decimal.value]

/-- Decimals of one value do not read back to two words. -/
theorem readsBack_inj {pattern' : Nat} {d' : Decimal} (h : d.value = d'.value)
    (hback : f.readsBack pattern d = true) (hback' : f.readsBack pattern' d' = true) :
    pattern = pattern' := by
  rw [← readsBack_iff.mp hback, ← readsBack_iff.mp hback']
  refine round_congr false (scaleByTenPower_pos Nat.one_pos) (scaleByTenPower_pos Nat.one_pos) ?_
  rw [value_scaled, value_scaled, h]

theorem digits_pos_of_readsBack (hpos : 0 < pattern) (hback : f.readsBack pattern d = true) :
    0 < d.digits := by
  refine Nat.pos_of_ne_zero fun hzero => hpos.ne ?_
  have hnum : (scaleByTenPower 0 1 d.exponent).1 = 0 := by
    rw [scaleByTenPower]
    split
    · rfl
    · exact Nat.zero_mul _
  rw [← readsBack_iff.mp hback, hzero, round, if_pos (Or.inl hnum)]
  rfl

private theorem readsBack_of_onGrid? (h : f.onGrid? pattern num den exponent = some d) :
    f.readsBack pattern d = true := by
  simp only [onGrid?] at h
  split at h
  case h_1 hbelow habove =>
    rw [Option.some.injEq] at h
    split at h
    · rwa [← h]
    · rwa [← h]
  case h_2 hbelow _ => rwa [← Option.some.inj h]
  case h_3 _ habove => rwa [← Option.some.inj h]
  case h_4 => cases h

/-- A decimal is found on a grid if what is at most half a grid unit away is rounded to the word. -/
theorem exists_onGrid? (hden : 0 < den)
    (hback : ∀ d : Decimal, |d.value - num / den| ≤ 10 ^ exponent / 2 →
      f.readsBack pattern d = true) :
    ∃ d, f.onGrid? pattern num den exponent = some d := by
  have hgrid : (0 : ℚ) < 10 ^ exponent := by positivity
  have hpos : 0 < (scaleByTenPower num den (-exponent)).2 := scaleByTenPower_pos hden
  have heq : (num / den : ℚ) = (scaleByTenPower num den (-exponent)).1 /
      (scaleByTenPower num den (-exponent)).2 * 10 ^ exponent := by
    rw [scaleByTenPower_eq, mul_assoc, ← zpow_add₀ (by decide), neg_add_cancel, zpow_zero, mul_one]
  rw [heq] at hback
  simp only [onGrid?]
  generalize scaleByTenPower num den (-exponent) = scaled at hpos hback ⊢
  have hnearest : f.readsBack pattern ⟨divideToEven scaled.1 scaled.2, exponent⟩ = true := by
    refine hback _ ?_
    rw [Decimal.value, ← sub_mul, abs_mul, abs_of_pos hgrid, div_eq_mul_inv (10 ^ exponent : ℚ),
      mul_comm, ← one_div]
    exact mul_le_mul_of_nonneg_left (divideToEven_near hpos) hgrid.le
  split
  case h_1 | h_2 | h_3 => exact ⟨_, rfl⟩
  case h_4 hbelow habove =>
    rcases divideToEven_eq_or scaled.1 scaled.2 with h | h
    · rw [h, hbelow] at hnearest
      cases hnearest
    · rw [h, habove] at hnearest
      cases hnearest

/-- Sixteen places behind the leading digit, the nearest decimals read back. -/
theorem readsBack_of_near {significand steps : Nat} (hp : 2 * f.fractionBound < 10 ^ 16)
    (hparts : f.Parts pattern significand steps) (hfinite : pattern < f.infinity) {leading : Int}
    (hleading : (10 : ℚ) ^ leading ≤ significand * f.unit steps)
    (hnear : |d.value - significand * f.unit steps| ≤ 10 ^ (leading - 16) / 2) :
    f.readsBack pattern d = true := by
  refine readsBack_iff.mpr (round_of_near hparts hfinite (scaleByTenPower_pos Nat.one_pos) ?_)
  have hp' : 2 * (f.fractionBound : ℚ) < 10 ^ 16 := by exact_mod_cast hp
  rw [value_scaled, Near]
  calc |d.value - significand * f.unit steps| * (4 * f.fractionBound)
      ≤ 10 ^ (leading - 16) / 2 * (4 * f.fractionBound) := by gcongr
    _ = 10 ^ (leading - 16) * (2 * f.fractionBound) := by ring
    _ < 10 ^ (leading - 16) * 10 ^ 16 := by gcongr
    _ = 10 ^ leading := by
      rw [← zpow_natCast, ← zpow_add₀ (by decide), Nat.cast_ofNat, sub_add_cancel]
    _ ≤ significand * f.unit steps := hleading

/-- The shortest decimal of a positive finite word is found and means that word. -/
theorem shortest?_spec (hp : 2 * f.fractionBound < 10 ^ 16) (hpos : 0 < pattern)
    (hfinite : pattern < f.infinity) (hsign : f.magnitude pattern = pattern) :
    ∃ d, f.shortest? pattern = some d ∧ f.readsBack pattern d = true := by
  obtain ⟨significand, steps, hparts, hunpack⟩ := unpack_finite (hsign.trans_lt hfinite)
  rw [hsign] at hparts
  simp only [shortest?, hunpack]
  have hden : 0 < (scaleByTwoPower significand 1 (f.leastExponent + steps)).2 :=
    scaleByTwoPower_pos Nat.one_pos
  have hnum : 0 < (scaleByTwoPower significand 1 (f.leastExponent + steps)).1 :=
    scaleByTwoPower_num_pos (hparts.significand_pos hpos)
  have hratio : ((scaleByTwoPower significand 1 (f.leastExponent + steps)).1 : ℚ) /
      (scaleByTwoPower significand 1 (f.leastExponent + steps)).2 = significand * f.unit steps := by
    rw [scaleByTwoPower_eq, Nat.cast_one, div_one, unit]
  generalize scaleByTwoPower significand 1 (f.leastExponent + steps) = ratio at hden hnum hratio ⊢
  have hleading := pow_floorLog10_le hnum hden
  rw [hratio] at hleading
  obtain ⟨d, hlast⟩ : ∃ d, f.onGrid? pattern ratio.1 ratio.2
      (floorLog10 ratio.1 ratio.2 - (16 : Nat)) = some d :=
    exists_onGrid? hden fun d hnear =>
      readsBack_of_near hp hparts hfinite hleading (hratio ▸ hnear)
  rcases hfound : (List.range 17).findSome? fun places =>
      f.onGrid? pattern ratio.1 ratio.2 (floorLog10 ratio.1 ratio.2 - (places : Nat)) with _ | d
  · rw [List.findSome?_eq_none_iff] at hfound
    rw [hfound 16 (by decide)] at hlast
    cases hlast
  · obtain ⟨places, -, hplaces⟩ := List.exists_of_findSome?_eq_some hfound
    exact ⟨d, rfl, readsBack_of_onGrid? hplaces⟩

end FloatFormat

end Arboretum

import Arboretum.Numeric.FloatFormat
import Mathlib.Algebra.Order.Field.Power
import Mathlib.Data.Rat.Cast.Order
import Mathlib.Tactic.Linarith
import Mathlib.Tactic.Positivity
import Mathlib.Tactic.Qify
import Mathlib.Tactic.Ring

/-!
Rounding as a function of a rational number. Scaling, the greatest power of two and the nearest
word depend on a quotient only, not on how it is written. A word is the rounding of everything that
is nearer to it than half a unit in its last place.
-/

namespace Arboretum

variable {num den num' den' n : Nat} {exponent : Int}

theorem quotient_scaled (base : Nat) (num den : Nat) (exponent : Int) :
    let scaled := if exponent < 0 then (num, den * Nat.pow base exponent.natAbs)
      else (num * Nat.pow base exponent.natAbs, den)
    (scaled.1 / scaled.2 : ℚ) = num / den * base ^ exponent := by
  split
  case isTrue h =>
    obtain ⟨k, rfl⟩ := Int.eq_negSucc_of_lt_zero h
    simp only [Int.natAbs_negSucc, Nat.pow_eq, Nat.cast_mul, Nat.cast_pow, zpow_negSucc]
    rw [div_mul_eq_div_div, div_eq_mul_inv (_ / _)]
  case isFalse h =>
    obtain ⟨k, rfl⟩ := Int.eq_ofNat_of_zero_le (Int.not_lt.mp h)
    simp only [Int.natAbs_natCast, Nat.pow_eq, Nat.cast_mul, Nat.cast_pow, zpow_natCast]
    exact mul_div_right_comm _ _ _

theorem scaleByTwoPower_eq : ((scaleByTwoPower num den exponent).1 : ℚ) /
    (scaleByTwoPower num den exponent).2 = num / den * 2 ^ exponent :=
  quotient_scaled 2 num den exponent

theorem scaleByTwoPower_pos (hden : 0 < den) : 0 < (scaleByTwoPower num den exponent).2 := by
  rw [scaleByTwoPower]
  split
  · exact Nat.mul_pos hden (Nat.pow_pos Nat.two_pos)
  · exact hden

theorem scaleByTwoPower_num_pos (hnum : 0 < num) : 0 < (scaleByTwoPower num den exponent).1 := by
  rw [scaleByTwoPower]
  split
  · exact hnum
  · exact Nat.mul_pos hnum (Nat.pow_pos Nat.two_pos)

private theorem log2_spec (h : 0 < n) :
    (2 : ℚ) ^ (n.log2 : Int) ≤ n ∧ (n : ℚ) < 2 ^ (n.log2 + 1 : Int) := by
  constructor
  · exact_mod_cast Nat.log2_self_le h.ne'
  · exact_mod_cast Nat.lt_log2_self (n := n)

private theorem quotient_near_guess (hnum : 0 < num) (hden : 0 < den) :
    (2 : ℚ) ^ ((num.log2 : Int) - den.log2 - 1) ≤ num / den ∧
      (num / den : ℚ) < 2 ^ ((num.log2 : Int) - den.log2 + 1) := by
  obtain ⟨hnumLow, hnumHigh⟩ := log2_spec hnum
  obtain ⟨hdenLow, hdenHigh⟩ := log2_spec hden
  have hpos : (0 : ℚ) < den := Nat.cast_pos.mpr hden
  rw [le_div_iff₀ hpos, div_lt_iff₀ hpos]
  constructor
  · calc (2 : ℚ) ^ ((num.log2 : Int) - den.log2 - 1) * den
        ≤ 2 ^ ((num.log2 : Int) - den.log2 - 1) * 2 ^ (den.log2 + 1 : Int) := by gcongr
      _ = 2 ^ (num.log2 : Int) := by rw [← zpow_add₀ two_ne_zero]; congr 1; omega
      _ ≤ num := hnumLow
  · calc (num : ℚ) < 2 ^ (num.log2 + 1 : Int) := hnumHigh
      _ = 2 ^ ((num.log2 : Int) - den.log2 + 1) * 2 ^ (den.log2 : Int) := by
        rw [← zpow_add₀ two_ne_zero]; congr 1; omega
      _ ≤ 2 ^ ((num.log2 : Int) - den.log2 + 1) * den := by gcongr

/-- A positive quotient lies between the greatest power of two below it and the next one. -/
theorem floorLog2_spec (hnum : 0 < num) (hden : 0 < den) :
    (2 : ℚ) ^ floorLog2 num den ≤ num / den ∧ (num / den : ℚ) < 2 ^ (floorLog2 num den + 1) := by
  obtain ⟨hlow, hhigh⟩ := quotient_near_guess hnum hden
  simp only [floorLog2]
  generalize (num.log2 : Int) - den.log2 = guess at hlow hhigh ⊢
  have hbelow : (scaleByTwoPower num den (-guess)).1 < (scaleByTwoPower num den (-guess)).2 ↔
      (num / den : ℚ) < 2 ^ guess := by
    rw [← Nat.cast_lt (α := ℚ), ← div_lt_one (Nat.cast_pos.mpr (scaleByTwoPower_pos hden)),
      scaleByTwoPower_eq, zpow_neg, mul_inv_lt_iff₀ (by positivity), one_mul]
  split
  case isTrue h =>
    rw [sub_add_cancel]
    exact ⟨hlow, hbelow.mp h⟩
  case isFalse h => exact ⟨not_lt.mp fun hlt => h (hbelow.mpr hlt), hhigh⟩

theorem floorLog2_lt_iff (hnum : 0 < num) (hden : 0 < den) (k : Int) :
    floorLog2 num den < k ↔ (num / den : ℚ) < 2 ^ k := by
  obtain ⟨hlow, hhigh⟩ := floorLog2_spec hnum hden
  constructor
  · intro h
    exact hhigh.trans_le (zpow_le_zpow_right₀ one_le_two h)
  · intro h
    exact (zpow_lt_zpow_iff_right₀ one_lt_two).mp (hlow.trans_lt h)

private theorem le_floorLog2_iff (hnum : 0 < num) (hden : 0 < den) (k : Int) :
    k ≤ floorLog2 num den ↔ (2 : ℚ) ^ k ≤ num / den := by
  rw [← not_lt, floorLog2_lt_iff hnum hden, not_lt]

theorem floorLog2_congr (hnum : 0 < num) (hden : 0 < den) (hnum' : 0 < num') (hden' : 0 < den')
    (h : (num / den : ℚ) = num' / den') : floorLog2 num den = floorLog2 num' den' :=
  eq_of_forall_gt_iff fun k => by
    rw [floorLog2_lt_iff hnum hden, floorLog2_lt_iff hnum' hden', h]

private theorem divideToEven_scale {k : Nat} (hk : 0 < k) :
    divideToEven (k * num) (k * den) = divideToEven num den := by
  simp only [divideToEven, Nat.mul_div_mul_left _ _ hk, Nat.mul_mod_mul_left,
    Nat.mul_left_comm 2 k, Nat.mul_lt_mul_left hk, Nat.mul_right_inj hk.ne']

theorem divideToEven_congr (hden : 0 < den) (hden' : 0 < den')
    (h : (num / den : ℚ) = num' / den') : divideToEven num den = divideToEven num' den' := by
  have hcross : den' * num = den * num' := by
    rw [div_eq_div_iff (Nat.cast_ne_zero.mpr hden.ne') (Nat.cast_ne_zero.mpr hden'.ne')] at h
    rw [Nat.mul_comm, Nat.mul_comm den]
    exact_mod_cast h
  calc divideToEven num den
      = divideToEven (den' * num) (den' * den) := (divideToEven_scale hden').symm
    _ = divideToEven (den * num') (den * den') := by rw [hcross, Nat.mul_comm den' den]
    _ = divideToEven num' den' := divideToEven_scale hden

theorem divideToEven_eq_or (num den : Nat) :
    divideToEven num den = num / den ∨ divideToEven num den = num / den + 1 := by
  simp only [divideToEven]
  split
  · exact Or.inr rfl
  · exact Or.inl rfl

theorem divideToEven_near (hden : 0 < den) :
    |(divideToEven num den : ℚ) - num / den| ≤ 1 / 2 := by
  have hpos : (0 : ℚ) < den := Nat.cast_pos.mpr hden
  have hsplit : (num : ℚ) = den * (num / den : Nat) + (num % den : Nat) := by
    exact_mod_cast (Nat.div_add_mod num den).symm
  have hrest : ((num % den : Nat) : ℚ) < den := Nat.cast_lt.mpr (Nat.mod_lt num hden)
  rw [abs_sub_le_iff, sub_le_iff_le_add, sub_le_iff_le_add, div_le_iff₀ hpos, ← sub_le_iff_le_add',
    le_div_iff₀ hpos]
  simp only [divideToEven]
  split
  case isTrue hup =>
    have hle : (den : ℚ) ≤ 2 * (num % den : Nat) := by
      exact_mod_cast hup.elim Nat.le_of_lt fun htie => htie.1.ge
    push_cast
    constructor <;> linarith
  case isFalse hdown =>
    have hle : 2 * ((num % den : Nat) : ℚ) ≤ den := by
      exact_mod_cast Nat.le_of_not_lt (not_or.mp hdown).1
    constructor <;> linarith

private theorem divideToEven_eq_of_near (hden : 0 < den) (h : |(num / den : ℚ) - n| < 1 / 2) :
    divideToEven num den = n := by
  have hlt : |(divideToEven num den : ℚ) - n| < 1 :=
    calc |(divideToEven num den : ℚ) - n|
        ≤ |(divideToEven num den : ℚ) - num / den| + |(num / den : ℚ) - n| := abs_sub_le _ _ _
      _ < 1 / 2 + 1 / 2 := add_lt_add_of_le_of_lt (divideToEven_near hden) h
      _ = 1 := add_halves 1
  have hint : |(divideToEven num den : Int) - n| < 1 := by exact_mod_cast hlt
  exact Nat.cast_inj.mp (sub_eq_zero.mp (Int.abs_lt_one_iff.mp hint))

namespace FloatFormat

variable {f : FloatFormat}

/-- The nearest word depends on the quotient alone. -/
theorem round_congr (negative : Bool) (hden : 0 < den) (hden' : 0 < den')
    (h : (num / den : ℚ) = num' / den') :
    f.round negative num den = f.round negative num' den' := by
  rcases Nat.eq_zero_or_pos num with rfl | hnum
  · have hzero : num' = 0 := by
      rw [Nat.cast_zero, zero_div, eq_comm, div_eq_zero_iff] at h
      exact_mod_cast h.resolve_right (Nat.cast_ne_zero.mpr hden'.ne')
    rw [hzero, round, round, if_pos (Or.inl rfl), if_pos (Or.inl rfl)]
  · have hnum' : 0 < num' := by
      have hpos : (0 : ℚ) < num' / den' :=
        h ▸ div_pos (Nat.cast_pos.mpr hnum) (Nat.cast_pos.mpr hden)
      exact Nat.cast_pos.mp ((div_pos_iff_of_pos_right (Nat.cast_pos.mpr hden')).mp hpos)
    simp only [round, hnum.ne', hden.ne', hnum'.ne', hden'.ne', or_self, if_false,
      floorLog2_congr hnum hden hnum' hden' h]
    rw [divideToEven_congr (scaleByTwoPower_pos hden) (scaleByTwoPower_pos hden')]
    rw [scaleByTwoPower_eq, scaleByTwoPower_eq, h]

/-- How a pattern without sign is made of a significand and the steps of its exponent above the
least one. The leading bit of the significand is set wherever the exponent could be lower. -/
structure Parts (f : FloatFormat) (pattern significand steps : Nat) : Prop where
  pattern_eq : pattern = steps * f.fractionBound + significand
  significand_lt : significand < 2 * f.fractionBound
  normal : 0 < steps → f.fractionBound ≤ significand

theorem fractionBound_pos : 0 < f.fractionBound := Nat.pow_pos Nat.two_pos

theorem Parts.significand_pos {pattern significand steps : Nat}
    (h : f.Parts pattern significand steps) (hpos : 0 < pattern) : 0 < significand := by
  rcases Nat.eq_zero_or_pos steps with rfl | hsteps
  · have := h.pattern_eq
    omega
  · exact f.fractionBound_pos.trans_le (h.normal hsteps)

/-- The parts of a pattern are its fields, with the leading bit that is not stored. -/
theorem parts_of_fields (f : FloatFormat) (pattern : Nat) :
    f.Parts pattern
      (if pattern / f.fractionBound = 0 then pattern % f.fractionBound
        else f.fractionBound + pattern % f.fractionBound)
      (pattern / f.fractionBound - 1) := by
  have hsplit := Nat.div_add_mod pattern f.fractionBound
  have hrest := Nat.mod_lt pattern f.fractionBound_pos
  rcases hfield : pattern / f.fractionBound with _ | steps
  · rw [hfield, Nat.mul_zero, Nat.zero_add] at hsplit
    rw [if_pos rfl]
    exact ⟨by omega, by omega, by omega⟩
  · rw [hfield, Nat.mul_comm, Nat.succ_mul] at hsplit
    rw [if_neg (Nat.succ_ne_zero steps), Nat.add_sub_cancel]
    exact ⟨by omega, by omega, by omega⟩

theorem unpack_finite {bits : Nat} (h : f.magnitude bits < f.infinity) :
    ∃ significand steps, f.Parts (f.magnitude bits) significand steps ∧
      f.unpack bits =
        .finite (f.isNegative bits) significand (f.leastExponent + (steps : Nat)) := by
  refine ⟨_, _, f.parts_of_fields (f.magnitude bits), ?_⟩
  rw [unpack, if_neg (Nat.not_lt.mpr h.le), if_neg h.ne]
  rcases hfield : f.magnitude bits / f.fractionBound with _ | steps
  · simp
  · simp

/-- The power of two that the last bit of a significand stands for, `steps` above the least. -/
def unit (f : FloatFormat) (steps : Nat) : ℚ := 2 ^ (f.leastExponent + steps)

theorem unit_pos (steps : Nat) : 0 < f.unit steps := zpow_pos two_pos _

theorem unit_succ (steps : Nat) : f.unit (steps + 1) = 2 * f.unit steps := by
  rw [unit, unit, Nat.cast_succ, ← add_assoc, zpow_add_one₀ two_ne_zero, mul_comm]

private theorem unit_mul_fractionBound (steps : Nat) :
    f.unit steps * f.fractionBound = 2 ^ (f.leastExponent + steps + (f.precision - 1 : Nat)) := by
  rw [unit, fractionBound, zpow_add₀ two_ne_zero (_ + _), zpow_natCast]
  norm_cast

private theorem round_of_exponent {significand steps : Nat} (hnum : 0 < num) (hden : 0 < den)
    (hexponent : max f.leastExponent (floorLog2 num den - (f.precision - 1 : Nat)) =
      f.leastExponent + steps)
    (hnear : |(num / den : ℚ) - significand * f.unit steps| < f.unit steps / 2) :
    f.round false num den = min f.infinity (steps * f.fractionBound + significand) := by
  have hunit := f.unit_pos steps
  rw [round, if_neg (by omega), hexponent]
  simp only [withSign, Bool.false_eq_true, if_false, add_sub_cancel_left, Int.toNat_natCast]
  rw [divideToEven_eq_of_near (scaleByTwoPower_pos hden)]
  rw [scaleByTwoPower_eq, zpow_neg, ← unit]
  calc |(num / den : ℚ) * (f.unit steps)⁻¹ - significand|
      = |(num / den : ℚ) - significand * f.unit steps| / f.unit steps := by
        rw [← abs_of_pos hunit, ← abs_div, abs_of_pos hunit, sub_div,
          mul_div_cancel_right₀ _ hunit.ne', div_eq_mul_inv (num / den : ℚ)]
    _ < 1 / 2 := by rwa [div_lt_iff₀ hunit, div_mul_eq_mul_div, one_mul]

section Near

variable {pattern significand steps : Nat}

/-- Nearness on the scale of a value. It stays below the distance of the next words. -/
def Near (f : FloatFormat) (x value : ℚ) : Prop := |x - value| * (4 * f.fractionBound) < value

private theorem fractionBound_one_le (f : FloatFormat) : (1 : ℚ) ≤ f.fractionBound :=
  Nat.one_le_cast.mpr f.fractionBound_pos

private theorem Near.lt_half_unit (h : f.Near (num / den) (significand * f.unit steps))
    (hlt : significand < 2 * f.fractionBound) :
    |(num / den : ℚ) - significand * f.unit steps| < f.unit steps / 2 := by
  have hunit := f.unit_pos steps
  have hbound := f.fractionBound_one_le
  have hlt' : (significand : ℚ) + 1 ≤ 2 * f.fractionBound := by exact_mod_cast hlt
  unfold Near at h
  nlinarith

private theorem Near.num_pos (h : f.Near (num / den) (significand * f.unit steps)) : 0 < num := by
  rcases Nat.eq_zero_or_pos num with rfl | hnum
  · have hvalue : 0 ≤ significand * f.unit steps :=
      mul_nonneg (Nat.cast_nonneg _) (f.unit_pos steps).le
    have hbound := f.fractionBound_one_le
    rw [Near, Nat.cast_zero, zero_div, zero_sub, abs_neg, abs_of_nonneg hvalue] at h
    nlinarith
  · exact hnum

private theorem round_of_aligned (hnum : 0 < num) (hden : 0 < den)
    (hlt : significand < 2 * f.fractionBound)
    (haligned : steps = 0 ∨ f.unit steps * f.fractionBound ≤ num / den)
    (hnear : |(num / den : ℚ) - significand * f.unit steps| < f.unit steps / 2) :
    f.round false num den = min f.infinity (steps * f.fractionBound + significand) := by
  have hunit := f.unit_pos steps
  have hlt' : (significand : ℚ) + 1 ≤ 2 * f.fractionBound := by exact_mod_cast hlt
  have hhigh := (abs_lt.mp hnear).2
  have hupper : floorLog2 num den < f.leastExponent + steps + (f.precision - 1 : Nat) + 1 := by
    rw [floorLog2_lt_iff hnum hden, zpow_add_one₀ two_ne_zero, ← unit_mul_fractionBound]
    nlinarith
  refine round_of_exponent hnum hden ?_ hnear
  rcases haligned with rfl | hle
  · omega
  · rw [unit_mul_fractionBound, ← le_floorLog2_iff hnum hden] at hle
    omega

private theorem round_of_below (hnum : 0 < num) (hden : 0 < den)
    (hbelow : (num / den : ℚ) < f.unit (steps + 1) * f.fractionBound)
    (hnear : f.Near (num / den) (f.fractionBound * f.unit (steps + 1))) :
    f.round false num den =
      min f.infinity ((steps + 1) * f.fractionBound + f.fractionBound) := by
  have hunit := f.unit_pos steps
  have hbound := f.fractionBound_one_le
  have hsame :
      f.fractionBound * f.unit (steps + 1) = (2 * f.fractionBound : Nat) * f.unit steps := by
    rw [unit_succ]
    push_cast
    ring
  rw [Near, hsame] at hnear
  have hquarter :
      |(num / den : ℚ) - (2 * f.fractionBound : Nat) * f.unit steps| < f.unit steps / 2 := by
    refine lt_of_mul_lt_mul_right (hnear.trans_eq ?_)
      (by positivity : 0 ≤ 4 * (f.fractionBound : ℚ))
    push_cast
    ring
  have hlower : f.leastExponent + steps + (f.precision - 1 : Nat) ≤ floorLog2 num den := by
    have hlow := (abs_lt.mp hquarter).1
    rw [le_floorLog2_iff hnum hden, ← unit_mul_fractionBound]
    push_cast at hlow
    nlinarith
  have hupper : floorLog2 num den <
      f.leastExponent + (steps + 1 : Nat) + (f.precision - 1 : Nat) := by
    rwa [floorLog2_lt_iff hnum hden, ← unit_mul_fractionBound]
  have hexponent : max f.leastExponent (floorLog2 num den - (f.precision - 1 : Nat)) =
      f.leastExponent + steps := by
    omega
  rw [round_of_exponent hnum hden hexponent hquarter, Nat.two_mul, ← Nat.add_assoc, ← Nat.succ_mul]

/-- What is nearer to a word than its significand allows is rounded to it. -/
theorem round_of_near (hparts : f.Parts pattern significand steps) (hfinite : pattern < f.infinity)
    (hden : 0 < den) (hnear : f.Near (num / den) (significand * f.unit steps)) :
    f.round false num den = pattern := by
  have hnum := hnear.num_pos
  have hhalf := hnear.lt_half_unit hparts.significand_lt
  rw [hparts.pattern_eq] at hfinite ⊢
  rw [← Nat.min_eq_right hfinite.le]
  by_cases haligned : steps = 0 ∨ f.unit steps * f.fractionBound ≤ num / den
  · exact round_of_aligned hnum hden hparts.significand_lt haligned hhalf
  · obtain ⟨hsteps, hbelow⟩ := not_or.mp haligned
    obtain ⟨k, rfl⟩ := Nat.exists_eq_succ_of_ne_zero hsteps
    -- The value is less than half a unit below the power of two, so the word begins there.
    have hleast : significand = f.fractionBound := by
      refine Nat.le_antisymm (Nat.le_of_lt_succ ?_) (hparts.normal (Nat.succ_pos k))
      have hlow := (abs_lt.mp hhalf).1
      have hunit := f.unit_pos k.succ
      qify
      nlinarith
    subst hleast
    exact round_of_below hnum hden (not_le.mp hbelow) hnear

end Near

end FloatFormat

end Arboretum

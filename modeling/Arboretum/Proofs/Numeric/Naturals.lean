import Arboretum.Proofs.Numeric.Order

/-!
Natural numbers as floating-point words. What a word can be is rounded to that word, and a word can
be any number of as many bits as its significand has, and the next one.
-/

namespace Arboretum

namespace FloatFormat

variable {f : FloatFormat} {pattern num den n : Nat}

private theorem value?_eq_measure (hp : 1 ≤ f.precision) (h : pattern < f.infinity) :
    f.value? pattern = some (f.measure pattern) := by
  have hsign : f.infinity ≤ f.signBit := by
    rw [signBit_eq hp, infinity, Nat.mul_comm f.fractionBound]
    exact Nat.mul_le_mul_right _ (Nat.sub_le _ _)
  have hmagnitude : f.magnitude pattern = pattern := Nat.mod_eq_of_lt (h.trans_le hsign)
  have hpositive : f.isNegative pattern = false := decide_eq_false (by omega)
  rw [value?_eq hp, value?_unpack (hmagnitude.trans_lt h), hmagnitude, hpositive,
    if_neg Bool.false_ne_true]

/-- The number of a word is rounded to this word. -/
theorem round_measure (hden : 0 < den) (h : (num / den : ℚ) = f.measure pattern)
    (hfinite : pattern < f.infinity) : f.round false num den = pattern := by
  rcases Nat.eq_zero_or_pos pattern with rfl | hpos
  · rw [measure_zero, div_eq_zero_iff] at h
    have hnum : num = 0 := by exact_mod_cast h.resolve_right (Nat.cast_ne_zero.mpr hden.ne')
    rw [round, if_pos (.inl hnum)]
    rfl
  · have hparts := f.parts_of_fields pattern
    refine round_of_near hparts hfinite hden ?_
    rw [Near, ← hparts.measure_eq, h, sub_self, abs_zero, zero_mul, ← f.measure_zero]
    exact f.measure_strictMono hpos

private theorem exists_aligned (hp : 1 ≤ f.precision) (hpos : 0 < n) (hn : n < 2 ^ f.precision) :
    ∃ significand, f.fractionBound ≤ significand ∧ significand < 2 * f.fractionBound ∧
      (significand : ℚ) * 2 ^ ((n.log2 : Int) - (f.precision - 1 : Nat)) = n := by
  have hlog : n.log2 < f.precision := (Nat.log2_lt hpos.ne').mpr hn
  have hbound : f.fractionBound = 2 ^ n.log2 * 2 ^ (f.precision - 1 - n.log2) := by
    rw [← Nat.pow_add, fractionBound, Nat.pow_eq]
    congr 1
    omega
  refine ⟨n * 2 ^ (f.precision - 1 - n.log2), ?_, ?_, ?_⟩
  · rw [hbound]
    exact Nat.mul_le_mul_right _ (Nat.log2_self_le hpos.ne')
  · rw [hbound, ← Nat.mul_assoc, ← Nat.pow_succ']
    exact Nat.mul_lt_mul_of_pos_right Nat.lt_log2_self (Nat.two_pow_pos _)
  · have hcancel : ((f.precision - 1 - n.log2 : Nat) : Int) +
        ((n.log2 : Int) - (f.precision - 1 : Nat)) = 0 := by omega
    rw [Nat.cast_mul, Nat.cast_pow, Nat.cast_ofNat, mul_assoc, ← zpow_natCast,
      ← zpow_add₀ two_ne_zero, hcancel, zpow_zero, mul_one]

private theorem exponentWidth_ne_zero (hp : 1 ≤ f.precision)
    (hwide : f.precision < 2 ^ (f.exponentWidth - 1)) : f.exponentWidth ≠ 0 := by
  intro hzero
  rw [hzero, Nat.zero_sub, Nat.pow_zero] at hwide
  omega

private theorem exists_measure_aligned (hp : 1 ≤ f.precision)
    (hwide : f.precision < 2 ^ (f.exponentWidth - 1)) {significand power : Nat}
    (hlow : f.fractionBound ≤ significand) (hhigh : significand < 2 * f.fractionBound)
    (hpower : power ≤ f.precision) : ∃ pattern < f.infinity,
      f.measure pattern = significand * 2 ^ ((power : Int) - (f.precision - 1 : Nat)) := by
  have hdouble : 2 ^ f.exponentWidth = 2 * 2 ^ (f.exponentWidth - 1) :=
    (mul_pow_sub_one (exponentWidth_ne_zero hp hwide) 2).symm
  have hleast : f.leastExponent = 3 - (2 ^ (f.exponentWidth - 1) : Nat) - f.precision := rfl
  obtain ⟨steps, hsteps, hroom⟩ : ∃ steps : Nat,
      f.leastExponent + steps = (power : Int) - (f.precision - 1 : Nat) ∧
        steps + 2 ≤ 2 ^ f.exponentWidth - 1 := by
    rw [hleast, hdouble]
    generalize 2 ^ (f.exponentWidth - 1) = half at hwide ⊢
    exact ⟨power + half - 2, by omega, by omega⟩
  have hparts : f.Parts (steps * f.fractionBound + significand) significand steps :=
    ⟨rfl, hhigh, fun _ => hlow⟩
  refine ⟨_, ?_, hparts.measure_eq.trans (by rw [unit, hsteps])⟩
  calc steps * f.fractionBound + significand < (steps + 2) * f.fractionBound := by
        rw [Nat.add_mul]
        omega
    _ ≤ f.infinity := Nat.mul_le_mul_right _ hroom

/-- Every natural number up to two to the precision is that of a word. -/
theorem exists_measure_eq (hp : 1 ≤ f.precision)
    (hwide : f.precision < 2 ^ (f.exponentWidth - 1)) (hn : n ≤ 2 ^ f.precision) :
    ∃ pattern < f.infinity, f.measure pattern = n := by
  rcases Nat.eq_zero_or_pos n with rfl | hpos
  · have hroom : 0 < f.infinity :=
      Nat.mul_pos (Nat.sub_pos_of_lt (Nat.one_lt_two_pow (exponentWidth_ne_zero hp hwide)))
        f.fractionBound_pos
    exact ⟨0, hroom, by rw [measure_zero, Nat.cast_zero]⟩
  · rcases Nat.lt_or_eq_of_le hn with hlt | rfl
    · obtain ⟨significand, hlow, hhigh, hvalue⟩ := exists_aligned hp hpos hlt
      rw [← hvalue]
      exact exists_measure_aligned hp hwide hlow hhigh ((Nat.log2_lt hpos.ne').mpr hlt).le
    · -- The power of two itself has one bit more, but its last one is zero.
      obtain ⟨pattern, hfinite, hmeasure⟩ := exists_measure_aligned hp hwide le_rfl
        (by have := f.fractionBound_pos; omega) le_rfl
      refine ⟨pattern, hfinite, hmeasure.trans ?_⟩
      rw [fractionBound, Nat.pow_eq]
      push_cast
      rw [← zpow_natCast, ← zpow_add₀ two_ne_zero, ← zpow_natCast]
      congr 1
      omega

theorem value?_round_natCast (hp : 1 ≤ f.precision)
    (hwide : f.precision < 2 ^ (f.exponentWidth - 1)) (hn : n ≤ 2 ^ f.precision) :
    f.round false n 1 < f.infinity ∧ f.value? (f.round false n 1) = some (n : ℚ) := by
  obtain ⟨pattern, hfinite, hmeasure⟩ := exists_measure_eq hp hwide hn
  have hround : f.round false n 1 = pattern :=
    round_measure Nat.one_pos (by rw [hmeasure, Nat.cast_one, div_one]) hfinite
  rw [hround]
  exact ⟨hfinite, by rw [value?_eq_measure hp hfinite, hmeasure]⟩

end FloatFormat

namespace Precision

variable {p : Precision} {n : Nat}

theorem precision_lt (p : Precision) : (FloatWord.format p.Word).precision <
    2 ^ ((FloatWord.format p.Word).exponentWidth - 1) := by
  cases p <;> decide

private theorem pattern_ofPattern {pattern : Nat}
    (h : pattern < (FloatWord.format p.Word).infinity) :
    FloatWord.pattern (FloatWord.ofPattern pattern : p.Word) = pattern := by
  cases p with
  | single => exact UInt32.toNat_ofNat_of_lt' (h.trans (by decide))
  | double => exact UInt64.toNat_ofNat_of_lt' (h.trans (by decide))

/-- A natural number becomes the word that stands for it, up to two to the precision. -/
theorem value?_ofNat (h : n ≤ 2 ^ (FloatWord.format p.Word).precision) :
    FloatWord.value? (FloatWord.ofNat n : p.Word) = some (n : ℚ) := by
  obtain ⟨hfinite, hvalue⟩ := FloatFormat.value?_round_natCast p.one_le p.precision_lt h
  rw [FloatWord.value?, FloatWord.ofNat, FloatWord.ofRatio, pattern_ofPattern hfinite, hvalue]

/-- An integer of 32 bits becomes the word that stands for it: any one in double precision, and in
single precision those up to two to the 24. -/
theorem value?_cast_uint32 (id : UInt32)
    (h : p = .single → id.toNat ≤ 2 ^ 24) :
    FloatWord.value? (Numeric.cast id : p.Word) = some (id.toNat : ℚ) := by
  cases p with
  | single => exact @value?_ofNat .single _ (h rfl)
  | double => exact @value?_ofNat .double _ ((UInt32.toNat_lt id).le.trans (by decide))

end Precision

end Arboretum

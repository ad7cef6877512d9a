import Arboretum.Model.Basic
import Arboretum.Proofs.Numeric.Values
import Mathlib.Data.Int.ConditionallyCompleteOrder

/-!
The order of floating-point words. Consecutive patterns are a unit apart, so words stand in the
order of their numbers, with the two infinities at the ends of the line. A comparison of words is
the comparison of their places there, and no comparison holds of a word without a place.
-/

namespace Arboretum

namespace FloatFormat

variable {f : FloatFormat} {pattern significand steps : Nat}

/-- The number of a pattern without sign, where every exponent is read as that of a number. -/
def measure (f : FloatFormat) (pattern : Nat) : ℚ :=
  let steps := pattern / f.fractionBound - 1
  (pattern - steps * f.fractionBound : Nat) * f.unit steps

private theorem Parts.steps_eq (h : f.Parts pattern significand steps) :
    pattern / f.fractionBound - 1 = steps := by
  have hbound := f.fractionBound_pos
  have hlt : significand / f.fractionBound < 2 :=
    (Nat.div_lt_iff_lt_mul hbound).mpr h.significand_lt
  have hnormal : 0 < steps → 1 ≤ significand / f.fractionBound := fun hpos =>
    (Nat.le_div_iff_mul_le hbound).mpr (by rw [Nat.one_mul]; exact h.normal hpos)
  rw [h.pattern_eq, Nat.add_comm, Nat.add_mul_div_right _ _ hbound]
  omega

theorem Parts.measure_eq (h : f.Parts pattern significand steps) :
    f.measure pattern = significand * f.unit steps := by
  have hrest : pattern - steps * f.fractionBound = significand := by
    have := h.pattern_eq
    omega
  simp only [measure, h.steps_eq, hrest]

@[simp] theorem measure_zero (f : FloatFormat) : f.measure 0 = 0 := by
  simp [measure]

/-- The next pattern is the next number, also where it begins a new power of two. -/
theorem Parts.measure_succ (h : f.Parts pattern significand steps) :
    f.measure (pattern + 1) = f.measure pattern + f.unit steps := by
  have hpattern := h.pattern_eq
  have hlt := h.significand_lt
  rw [h.measure_eq]
  by_cases hcarry : significand + 1 < 2 * f.fractionBound
  · have hnext : f.Parts (pattern + 1) (significand + 1) steps :=
      ⟨by omega, hcarry, fun hpos => Nat.le_succ_of_le (h.normal hpos)⟩
    rw [hnext.measure_eq]
    push_cast
    ring
  · have hfull : significand + 1 = 2 * f.fractionBound := by omega
    have hnext : f.Parts (pattern + 1) f.fractionBound (steps + 1) :=
      ⟨by rw [Nat.succ_mul]; omega, by have := f.fractionBound_pos; omega, fun _ => le_rfl⟩
    have hcast : (significand : ℚ) + 1 = 2 * f.fractionBound := by exact_mod_cast hfull
    calc f.measure (pattern + 1) = f.fractionBound * (2 * f.unit steps) := by
          rw [hnext.measure_eq, unit_succ]
      _ = (significand + 1) * f.unit steps := by rw [hcast]; ring
      _ = significand * f.unit steps + f.unit steps := by ring

theorem measure_strictMono (f : FloatFormat) : StrictMono f.measure := by
  refine strictMono_nat_of_lt_succ fun pattern => ?_
  rw [(f.parts_of_fields pattern).measure_succ]
  exact lt_add_of_pos_right _ (f.unit_pos _)

/-- The number at a place in the order of words. -/
def signedMeasure (f : FloatFormat) (rank : Int) : ℚ :=
  if rank < 0 then -f.measure rank.natAbs else f.measure rank.natAbs

@[simp] theorem signedMeasure_natCast (f : FloatFormat) (n : Nat) :
    f.signedMeasure n = f.measure n := by
  rw [signedMeasure, if_neg (by omega), Int.natAbs_natCast]

@[simp] theorem signedMeasure_neg (f : FloatFormat) (n : Nat) :
    f.signedMeasure (-n) = -f.measure n := by
  rcases Nat.eq_zero_or_pos n with rfl | hpos
  · simp [signedMeasure]
  · rw [signedMeasure, if_pos (by omega), Int.natAbs_neg, Int.natAbs_natCast]

theorem signedMeasure_strictMono (f : FloatFormat) : StrictMono f.signedMeasure := by
  refine strictMono_int_of_lt_succ fun rank => ?_
  cases rank with
  | ofNat n =>
    have hnext : Int.ofNat n + 1 = (n + 1 : Nat) := rfl
    rw [hnext, Int.ofNat_eq_natCast, signedMeasure_natCast, signedMeasure_natCast]
    exact f.measure_strictMono n.lt_succ_self
  | negSucc n =>
    have hnext : Int.negSucc n + 1 = -(n : Int) := by omega
    rw [hnext, Int.negSucc_eq, ← Int.natCast_succ, signedMeasure_neg, signedMeasure_neg]
    exact neg_lt_neg (f.measure_strictMono n.lt_succ_self)

/-- The point of the line at a place in the order of words. The infinities are at its ends. -/
def point (f : FloatFormat) (rank : Int) : WithBot (WithTop ℚ) :=
  if rank ≤ -f.infinity then ⊥
  else ((if f.infinity ≤ rank then ⊤ else f.signedMeasure rank : WithTop ℚ) : WithBot (WithTop ℚ))

theorem point_strictMonoOn (f : FloatFormat) :
    StrictMonoOn f.point (Set.Icc (-f.infinity : Int) f.infinity) := by
  rintro rank ⟨hlow, -⟩ rank' ⟨-, hhigh⟩ hlt
  rw [point, point, if_neg (by omega : ¬ rank' ≤ -f.infinity)]
  by_cases hbottom : rank ≤ -f.infinity
  · rw [if_pos hbottom]
    exact WithBot.bot_lt_coe _
  · rw [if_neg hbottom, if_neg (by omega : ¬ (f.infinity : Int) ≤ rank), WithBot.coe_lt_coe]
    by_cases htop : (f.infinity : Int) ≤ rank'
    · rw [if_pos htop]
      exact WithTop.coe_lt_top _
    · rw [if_neg htop, WithTop.coe_lt_coe]
      exact f.signedMeasure_strictMono hlt

theorem rank?_mem {bits : Nat} {rank : Int} (h : f.rank? bits = some rank) :
    rank ∈ Set.Icc (-f.infinity : Int) f.infinity := by
  simp only [rank?, isNaN, decide_eq_true_eq] at h
  split at h
  · cases h
  · rw [Set.mem_Icc]
    split at h <;> obtain rfl := Option.some.inj h <;> omega

end FloatFormat

/-- The point of an unpacked word on the line of numbers with both infinities. -/
def FloatDatum.extended? : FloatDatum → Option (WithBot (WithTop ℚ))
  | nan => none
  | infinite negative => some (if negative then ⊥ else ((⊤ : WithTop ℚ) : WithBot (WithTop ℚ)))
  | finite negative significand exponent =>
    (finite negative significand exponent).value?.map fun value : ℚ =>
      ((value : WithTop ℚ) : WithBot (WithTop ℚ))

theorem FloatDatum.extended?_of_value? {datum : FloatDatum} {value : ℚ}
    (h : datum.value? = some value) :
    datum.extended? = some ((value : WithTop ℚ) : WithBot (WithTop ℚ)) := by
  cases datum with
  | nan => cases h
  | infinite negative => cases h
  | finite negative significand exponent => rw [extended?, h, Option.map_some]

namespace FloatFormat

variable {f : FloatFormat} {bits : Nat}

theorem value?_unpack (h : f.magnitude bits < f.infinity) : (f.unpack bits).value? =
    some (if f.isNegative bits then -f.measure (f.magnitude bits)
      else f.measure (f.magnitude bits)) := by
  obtain ⟨significand, steps, hparts, hunpack⟩ := unpack_finite h
  rw [hunpack, hparts.measure_eq]
  rfl

/-- A word stands on the line where its place in the order of words is. -/
theorem extended?_unpack (hwide : 0 < f.infinity) :
    (f.unpack bits).extended? = (f.rank? bits).map f.point := by
  rcases Nat.lt_trichotomy (f.magnitude bits) f.infinity with hfinite | hinfinite | hnan
  · have hvalue := value?_unpack hfinite
    obtain ⟨significand, steps, -, hunpack⟩ := unpack_finite hfinite
    have hnumber : f.isNaN bits = false := decide_eq_false (by omega)
    rw [hunpack] at hvalue ⊢
    rw [FloatDatum.extended?, hvalue, rank?, hnumber, if_neg Bool.false_ne_true]
    cases f.isNegative bits with
    | true =>
      rw [if_pos rfl, if_pos rfl, Option.map_some, Option.map_some, point, if_neg (by omega),
        if_neg (by omega), signedMeasure_neg]
    | false =>
      rw [if_neg Bool.false_ne_true, if_neg Bool.false_ne_true, Option.map_some, Option.map_some,
        point, if_neg (by omega), if_neg (by omega), signedMeasure_natCast]
  · have hnumber : f.isNaN bits = false := decide_eq_false (by omega)
    rw [unpack, if_neg (by omega), if_pos hinfinite, FloatDatum.extended?, rank?, hnumber,
      if_neg Bool.false_ne_true, hinfinite]
    cases f.isNegative bits with
    | true => rw [if_pos rfl, if_pos rfl, Option.map_some, point, if_pos le_rfl]
    | false =>
      rw [if_neg Bool.false_ne_true, if_neg Bool.false_ne_true, Option.map_some, point,
        if_neg (by omega), if_pos le_rfl]
  · have hnumber : f.isNaN bits = true := decide_eq_true hnan
    rw [unpack, if_pos hnan, rank?, hnumber, if_pos rfl]
    rfl

end FloatFormat

namespace Precision

theorem one_le (p : Precision) : 1 ≤ (FloatWord.format p.Word).precision := by
  cases p <;> decide

theorem infinity_pos (p : Precision) : 0 < (FloatWord.format p.Word).infinity := by
  cases p <;> decide

theorem rank?_eq (p : Precision) (x : p.Word) :
    Numeric.rank? x = (FloatWord.format p.Word).rank? (FloatWord.pattern x) := by
  cases p <;> rfl

end Precision

def FloatWord.extended? {α : Type} [FloatWord α] (x : α) : Option (WithBot (WithTop ℚ)) :=
  (unpack x).extended?

namespace Precision

variable {p : Precision} {x : p.Word}

theorem extended?_eq (x : p.Word) :
    FloatWord.extended? x = (Numeric.rank? x).map (FloatWord.format p.Word).point := by
  rw [p.rank?_eq]
  exact FloatFormat.extended?_unpack p.infinity_pos

theorem extended?_of_value? {value : ℚ} (h : FloatWord.value? x = some value) :
    FloatWord.extended? x = some ((value : WithTop ℚ) : WithBot (WithTop ℚ)) := by
  rw [FloatWord.value?, FloatFormat.value?_eq p.one_le] at h
  exact FloatDatum.extended?_of_value? h

theorem extended?_of_isNaN (h : FloatWord.isNaN x = true) : FloatWord.extended? x = none := by
  rw [FloatWord.isNaN] at h
  rw [extended?_eq, p.rank?_eq, FloatFormat.rank?, if_pos h, Option.map_none]

theorem isNaN_of_value? {value : ℚ} (h : FloatWord.value? x = some value) :
    FloatWord.isNaN x = false := by
  by_contra hnan
  have hpoint := extended?_of_value? h
  rw [extended?_of_isNaN (Bool.eq_true_of_not_eq_false hnan)] at hpoint
  cases hpoint

end Precision

namespace Comparison

/-- What a comparison asks of two points of a line. -/
def Relates {K : Type} [LinearOrder K] : Comparison → K → K → Prop
  | never, _, _ => False
  | equal, a, b => a = b
  | less, a, b => a < b
  | lessOrEqual, a, b => a ≤ b
  | greater, a, b => b < a
  | greaterOrEqual, a, b => b ≤ a

private theorem relates_map {K L : Type} [LinearOrder K] [LinearOrder L] {f : K → L} {s : Set K}
    (hf : StrictMonoOn f s) (comparison : Comparison) {a b : K} (ha : a ∈ s) (hb : b ∈ s) :
    comparison.Relates (f a) (f b) ↔ comparison.Relates a b := by
  cases comparison with
  | never => exact Iff.rfl
  | equal => exact hf.eq_iff_eq ha hb
  | less => exact hf.lt_iff_lt ha hb
  | lessOrEqual => exact hf.le_iff_le ha hb
  | greater => exact hf.lt_iff_lt hb ha
  | greaterOrEqual => exact hf.le_iff_le hb ha

private theorem holds_iff_rank? {α : Type} [Numeric α] (comparison : Comparison) (x y : α) :
    comparison.holds x y = true ↔ ∃ i j, Numeric.rank? x = some i ∧ Numeric.rank? y = some j ∧
      comparison.Relates i j := by
  cases comparison <;> cases hx : Numeric.rank? x <;> cases hy : Numeric.rank? y <;>
    simp [holds, Relates, Numeric.agrees, Numeric.less, Numeric.lessOrEqual, hx, hy]

variable {p : Precision}

/-- A comparison of words holds where it holds of their points on the line, and nowhere if one of
them has none. -/
theorem holds_iff (comparison : Comparison) (x y : p.Word) :
    comparison.holds x y = true ↔ ∃ a b, FloatWord.extended? x = some a ∧
      FloatWord.extended? y = some b ∧ comparison.Relates a b := by
  have hmono := (FloatWord.format p.Word).point_strictMonoOn
  simp only [holds_iff_rank?, Precision.extended?_eq, Option.map_eq_some_iff]
  constructor
  · rintro ⟨i, j, hi, hj, h⟩
    refine ⟨_, _, ⟨i, hi, rfl⟩, ⟨j, hj, rfl⟩, (relates_map hmono comparison ?_ ?_).mpr h⟩
    · exact FloatFormat.rank?_mem (p.rank?_eq x ▸ hi)
    · exact FloatFormat.rank?_mem (p.rank?_eq y ▸ hj)
  · rintro ⟨-, -, ⟨i, hi, rfl⟩, ⟨j, hj, rfl⟩, h⟩
    refine ⟨i, j, hi, hj, (relates_map hmono comparison ?_ ?_).mp h⟩
    · exact FloatFormat.rank?_mem (p.rank?_eq x ▸ hi)
    · exact FloatFormat.rank?_mem (p.rank?_eq y ▸ hj)

/-- Numbers are compared by their values. -/
theorem holds_iff_of_value? (comparison : Comparison) {x y : p.Word} {a b : ℚ}
    (hx : FloatWord.value? x = some a) (hy : FloatWord.value? y = some b) :
    comparison.holds x y = true ↔ comparison.Relates a b := by
  have hmono : StrictMonoOn (fun value : ℚ => ((value : WithTop ℚ) : WithBot (WithTop ℚ)))
      Set.univ := (WithBot.coe_strictMono.comp WithTop.coe_strictMono).strictMonoOn _
  rw [holds_iff, Precision.extended?_of_value? hx, Precision.extended?_of_value? hy,
    ← relates_map hmono comparison (Set.mem_univ a) (Set.mem_univ b)]
  simp

/-- Nothing is compared with what is not a number. -/
theorem not_holds_of_isNaN (comparison : Comparison) {x y : p.Word}
    (h : FloatWord.isNaN x = true ∨ FloatWord.isNaN y = true) : comparison.holds x y = false := by
  rw [← Bool.not_eq_true, holds_iff]
  rintro ⟨a, b, hx, hy, -⟩
  rcases h with hnan | hnan
  · rw [Precision.extended?_of_isNaN hnan] at hx
    cases hx
  · rw [Precision.extended?_of_isNaN hnan] at hy
    cases hy

end Comparison

end Arboretum

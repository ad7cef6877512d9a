import Arboretum.Model.Basic
import Arboretum.Proofs.Numeric.Order
import Arboretum.Tree.Walk

/-!
The test for a category. The search among ascending categories finds what is there and nothing else,
repeated or not, and a feature value can be found only if it is a natural number within the bounds
of the categories and of what its type tells apart.
-/

namespace Arboretum

variable {xs : Array UInt32} {value : UInt32}

private theorem le_of_ascending (h : xs.toList.Pairwise (· ≤ ·)) {i j : Nat} {x y : UInt32}
    (hx : xs[i]? = some x) (hy : xs[j]? = some y) (hle : i ≤ j) : x ≤ y := by
  obtain ⟨hi, rfl⟩ := Array.getElem?_eq_some_iff.mp hx
  obtain ⟨hj, rfl⟩ := Array.getElem?_eq_some_iff.mp hy
  rcases Nat.lt_or_eq_of_le hle with hlt | rfl
  · exact List.pairwise_iff_getElem.mp h i j hi hj hlt
  · exact UInt32.le_refl _

/-- The search between two positions finds a value that stands between them. -/
theorem containsBetween_iff (hsorted : xs.toList.Pairwise (· ≤ ·)) {first last : Nat}
    (hlast : last ≤ xs.size) : containsBetween xs value first last = true ↔
      ∃ i, first ≤ i ∧ i < last ∧ xs[i]? = some value := by
  fun_induction containsBetween xs value first last with
  | case1 first last hlt middle hmiddle =>
    rw [Array.getElem?_eq_none_iff] at hmiddle
    omega
  | case2 first last hlt middle hmiddle =>
    exact ⟨fun _ => ⟨middle, by omega, by omega, hmiddle⟩, fun _ => rfl⟩
  | case3 first last hlt middle x hmiddle hne hless ih =>
    rw [ih hlast]
    constructor
    · rintro ⟨i, hi, hend, hvalue⟩
      exact ⟨i, by omega, hend, hvalue⟩
    · rintro ⟨i, hi, hend, hvalue⟩
      -- What is not behind the middle is not greater than its value.
      have hbehind : middle < i := by
        by_contra hle
        exact UInt32.not_lt.mpr (le_of_ascending hsorted hvalue hmiddle (by omega)) hless
      exact ⟨i, hbehind, hend, hvalue⟩
  | case4 first last hlt middle x hmiddle hne hless ih =>
    rw [ih (by omega)]
    constructor
    · rintro ⟨i, hi, hend, hvalue⟩
      exact ⟨i, hi, by omega, hvalue⟩
    · rintro ⟨i, hi, hend, hvalue⟩
      have hbefore : i < middle := by
        by_contra hle
        have hge := le_of_ascending hsorted hmiddle hvalue (by omega)
        exact hne (UInt32.le_antisymm hge (UInt32.not_lt.mp hless))
      exact ⟨i, hi, hbefore, hvalue⟩
  | case5 first last hlt =>
    constructor
    · intro h
      cases h
    · rintro ⟨i, hi, hend, -⟩
      omega

theorem containsSorted_iff (hsorted : xs.toList.Pairwise (· ≤ ·)) :
    containsSorted xs value = true ↔ value ∈ xs := by
  rw [containsSorted, containsBetween_iff hsorted (Nat.le_refl _), Array.mem_iff_getElem?]
  constructor
  · rintro ⟨i, -, -, hvalue⟩
    exact ⟨i, hvalue⟩
  · rintro ⟨i, hvalue⟩
    exact ⟨i, Nat.zero_le i, (Array.getElem?_eq_some_iff.mp hvalue).1, hvalue⟩

/-- A feature value is among ascending categories, repeated or not, when the number that it stands
for is one of them and does not exceed the numbers that its type tells apart one from the next. -/
theorem categoryMatches_iff {p : Precision} (value : p.Word) {categories : Array UInt32}
    (hsorted : categories.toList.Pairwise (· ≤ ·)) :
    categoryMatches value categories = true ↔
      ∃ k : Nat, FloatWord.value? value = some (k : ℚ) ∧
        k ≤ min (2 ^ 32 - 1) (2 ^ (FloatWord.format p.Word).precision) ∧
        ∃ category ∈ categories, category.toNat = k := by
  have hvalue : ∀ k, FloatWord.toNat? value = some k ↔ FloatWord.value? value = some (k : ℚ) :=
    fun k => FloatFormat.toNat?_eq_some_iff p.one_le
  rw [categoryMatches]
  cases hnat : FloatWord.toNat? value with
  | none =>
    constructor
    · intro h
      cases h
    · rintro ⟨k, hk, -⟩
      rw [← hvalue, hnat] at hk
      cases hk
  | some n =>
    have hn := (hvalue n).mp hnat
    simp only [Bool.and_eq_true, decide_eq_true_eq, containsSorted_iff hsorted, Nat.pow_eq]
    constructor
    · rintro ⟨hle, hmem⟩
      have hsmall : n < UInt32.size :=
        Nat.lt_of_le_of_lt (hle.trans (Nat.min_le_left _ _)) (by decide)
      exact ⟨n, hn, hle, _, hmem, UInt32.toNat_ofNat_of_lt' hsmall⟩
    · rintro ⟨k, hk, hle, category, hmem, rfl⟩
      obtain rfl : n = category.toNat := Option.some.inj (hnat.symm.trans ((hvalue _).mpr hk))
      rw [UInt32.ofNat_toNat]
      exact ⟨hle, hmem⟩

/-- The greatest number that single precision admits is found behind a repeated category, and the
next one that it has is not; nothing is found half a step above a category. -/
theorem categoryMatches_iff_greatest :
    FloatWord.value? (⟨0x4b800000⟩ : Single) = some ((2 ^ 24 : Nat) : ℚ) ∧
    categoryMatches (⟨0x4b800000⟩ : Single) #[3, 3, 16777216, 16777218] = true ∧
    categoryMatches (⟨0x4b800001⟩ : Single) #[3, 3, 16777216, 16777218] = false ∧
    categoryMatches (⟨0x40600000⟩ : Single) #[3, 3, 16777216, 16777218] = false := by
  have hsorted : (#[3, 3, 16777216, 16777218] : Array UInt32).toList.Pairwise (· ≤ ·) := by decide
  have hvalue : FloatWord.value? (⟨0x4b800000⟩ : Single) = some ((2 ^ 24 : Nat) : ℚ) :=
    (FloatFormat.toNat?_eq_some_iff (by decide)).mp (by decide +kernel)
  refine ⟨hvalue, ?_, by decide +kernel, by decide +kernel⟩
  exact (categoryMatches_iff (p := .single) _ hsorted).mpr
    ⟨2 ^ 24, hvalue, by decide, 16777216, by decide +kernel, rfl⟩

end Arboretum

import Arboretum.Proofs.Numeric.Shortest
import Mathlib.Data.List.DropRight
import Mathlib.Data.List.TakeWhile

/-!
A decimal text can be read back. What it stands for is its digits, shifted by the places behind the
point and by the exponent; the writer puts the value of a decimal there in each of its notations.
So two finite words of one format are never written alike.
-/

namespace Arboretum

namespace Numeral

/-- The digits of a text as one number. A point among them is left out. -/
def digits (text : List Char) : Nat := Nat.ofDigitChars 10 (text.filter (· != '.')) 0

def places (text : List Char) : Nat := (text.dropWhile (· != '.')).length - 1

def power : List Char → Int
  | 'e' :: '-' :: text => -(Nat.ofDigitChars 10 text 0 : Nat)
  | 'e' :: _ :: text => (Nat.ofDigitChars 10 text 0 : Nat)
  | _ => 0

def value (text : List Char) : ℚ :=
  let mantissa := text.takeWhile (· != 'e')
  digits mantissa * 10 ^ (power (text.dropWhile (· != 'e')) - places mantissa)

def IsDigits (text : List Char) : Prop := ∀ c ∈ text, c.isDigit = true

variable {text whole fraction rest : List Char} {n : Nat}

theorem IsDigits.append (h : IsDigits whole) (h' : IsDigits fraction) :
    IsDigits (whole ++ fraction) :=
  List.forall_mem_append.mpr ⟨h, h'⟩

private theorem isDigits_zeros : IsDigits (List.replicate n '0') := by
  intro c hc
  rw [List.eq_of_mem_replicate hc]
  rfl

theorem isDigits_toDigits : IsDigits (Nat.toDigits 10 n) := fun _ =>
  Nat.isDigit_of_mem_toDigits (by decide) (by decide)

private theorem IsDigits.differs (h : IsDigits text) {c : Char} (hc : c.isDigit = false) :
    ∀ d ∈ text, (d != c) = true := by
  intro d hd
  rw [bne_iff_ne]
  rintro rfl
  exact Bool.false_ne_true (hc.symm.trans (h d hd))

private theorem places_whole (h : IsDigits whole) : places whole = 0 := by
  rw [places, List.dropWhile_eq_nil_iff.mpr (h.differs rfl)]
  rfl

private theorem places_point (h : IsDigits whole) :
    places (whole ++ '.' :: fraction) = fraction.length := by
  rw [places, List.dropWhile_append_of_pos (h.differs rfl)]
  rfl

private theorem digits_whole (h : IsDigits whole) : digits whole = Nat.ofDigitChars 10 whole 0 := by
  rw [digits, List.filter_eq_self.mpr (h.differs rfl)]

private theorem digits_point (h : IsDigits whole) (h' : IsDigits fraction) :
    digits (whole ++ '.' :: fraction) = Nat.ofDigitChars 10 (whole ++ fraction) 0 := by
  rw [digits, List.filter_append, List.filter_cons_of_neg (by decide),
    List.filter_eq_self.mpr (h.differs rfl), List.filter_eq_self.mpr (h'.differs rfl)]

private theorem value_positional (h : ∀ c ∈ text, (c != 'e') = true) :
    value text = digits text * 10 ^ (-(places text : Int)) := by
  simp only [value]
  rw [List.takeWhile_eq_self_iff.mpr h, List.dropWhile_eq_nil_iff.mpr h]
  exact congrArg _ (congrArg _ (zero_sub _))

private theorem value_scientific (h : ∀ c ∈ text, (c != 'e') = true) :
    value (text ++ 'e' :: rest) = digits text * 10 ^ (power ('e' :: rest) - places text) := by
  simp only [value]
  rw [List.takeWhile_append_of_pos h, List.dropWhile_append_of_pos h]
  simp

/-- A character of a word that is written without quotes. -/
def isWordChar (c : Char) : Bool := c.isAlphanum || c == '.' || c == '+' || c == '-'

theorem IsDigits.chars (h : IsDigits text) : ∀ c ∈ text, isWordChar c = true := by
  intro c hc
  rw [isWordChar, Char.isAlphanum, h c hc, Bool.or_true, Bool.true_or]
  rfl

/-- A text without a sign of its own that stands for a number. -/
structure Notates (text : List Char) (x : ℚ) : Prop where
  leads : ∃ c rest, text = c :: rest ∧ c.isDigit = true
  chars : ∀ c ∈ text, isWordChar c = true
  value_eq : value text = x

/-- A notation with an exponent of zero. -/
structure Positional (text : List Char) (x : ℚ) : Prop extends Notates text x where
  plain : ∀ c ∈ text, (c != 'e') = true

theorem IsDigits.leads (h : IsDigits text) (hne : text ≠ []) (rest : List Char) :
    ∃ c rest', text ++ rest = c :: rest' ∧ c.isDigit = true := by
  obtain ⟨c, text, rfl⟩ := List.exists_cons_of_ne_nil hne
  exact ⟨c, text ++ rest, rfl, h c (List.mem_cons_self ..)⟩

theorem positional_whole (h : IsDigits whole) (hne : whole ≠ []) :
    Positional whole (Nat.ofDigitChars 10 whole 0 : Nat) where
  leads := by simpa using h.leads hne []
  chars := h.chars
  plain := h.differs rfl
  value_eq := by
    rw [value_positional (h.differs rfl), digits_whole h, places_whole h]
    exact mul_one _

private theorem positional_point (h : IsDigits whole) (hne : whole ≠ []) (h' : IsDigits fraction) :
    Positional (whole ++ '.' :: fraction)
      ((Nat.ofDigitChars 10 (whole ++ fraction) 0 : Nat) * 10 ^ (-(fraction.length : Int))) := by
  have hplain : ∀ c ∈ whole ++ '.' :: fraction, (c != 'e') = true :=
    List.forall_mem_append.mpr
      ⟨h.differs rfl, List.forall_mem_cons.mpr ⟨by decide, h'.differs rfl⟩⟩
  refine ⟨⟨h.leads hne _, ?_, ?_⟩, hplain⟩
  · exact List.forall_mem_append.mpr
      ⟨h.chars, List.forall_mem_cons.mpr ⟨by decide, h'.chars⟩⟩
  · rw [value_positional hplain, digits_point h h', places_point h]

theorem Positional.withPower {x : ℚ} (h : Positional text x) (exponent : Int) :
    Notates (text ++ 'e' :: (if exponent < 0 then '-' else '+') ::
      Nat.toDigits 10 exponent.natAbs) (x * 10 ^ exponent) := by
  have hpower : power ('e' :: (if exponent < 0 then '-' else '+') ::
      Nat.toDigits 10 exponent.natAbs) = exponent := by
    split
    · rw [power, Nat.ofDigitChars_ten_toDigits]
      omega
    · rw [power, Nat.ofDigitChars_ten_toDigits]
      · omega
      · simp
  obtain ⟨c, rest, hlead, hdigit⟩ := h.leads
  refine ⟨⟨c, rest ++ _, congrArg (· ++ _) hlead, hdigit⟩, ?_, ?_⟩
  · refine List.forall_mem_append.mpr ⟨h.chars, List.forall_mem_cons.mpr ⟨by decide,
      List.forall_mem_cons.mpr ⟨?_, isDigits_toDigits.chars⟩⟩⟩
    split <;> decide
  · rw [value_scientific h.plain, hpower, ← h.value_eq, value_positional h.plain, mul_assoc,
      ← zpow_add₀ (by decide), neg_add_eq_sub]

/-- The digits of a decimal without the zeros at their end, and where they stand. -/
theorem exists_kept (d : Decimal) (hpos : 0 < d.digits) :
    ∃ kept : List Char, kept = ((Nat.toDigits 10 d.digits).reverse.dropWhile (· == '0')).reverse ∧
      IsDigits kept ∧ kept ≠ [] ∧
      d.value = (Nat.ofDigitChars 10 kept 0 : Nat) *
        10 ^ (d.exponent + (Nat.toDigits 10 d.digits).length - kept.length) := by
  refine ⟨(Nat.toDigits 10 d.digits).rdropWhile (· == '0'), rfl, ?_⟩
  have hsplit : (Nat.toDigits 10 d.digits).rdropWhile (· == '0') ++
      (Nat.toDigits 10 d.digits).rtakeWhile (· == '0') = Nat.toDigits 10 d.digits :=
    List.rdropWhile_append_rtakeWhile
  have hzeros : (Nat.toDigits 10 d.digits).rtakeWhile (· == '0') =
      List.replicate ((Nat.toDigits 10 d.digits).rtakeWhile (· == '0')).length '0' :=
    List.eq_replicate_length.mpr fun c hc => by simpa using List.mem_rtakeWhile_imp hc
  generalize (Nat.toDigits 10 d.digits).rdropWhile (· == '0') = kept at hsplit ⊢
  generalize ((Nat.toDigits 10 d.digits).rtakeWhile (· == '0')).length = n at hzeros
  rw [hzeros] at hsplit
  have hdigits : d.digits = 10 ^ n * Nat.ofDigitChars 10 kept 0 := by
    rw [← Nat.ofDigitChars_replicate_zero, ← Nat.ofDigitChars_append, hsplit,
      Nat.ofDigitChars_ten_toDigits]
  refine ⟨fun c hc => isDigits_toDigits c (hsplit ▸ List.mem_append_left _ hc), ?_, ?_⟩
  · rintro rfl
    rw [hdigits, Nat.ofDigitChars_nil, Nat.mul_zero] at hpos
    exact Nat.lt_irrefl 0 hpos
  · have hexponent : d.exponent + (Nat.toDigits 10 d.digits).length - kept.length =
        n + d.exponent := by
      rw [← hsplit, List.length_append, List.length_replicate]
      omega
    rw [hexponent, Decimal.value, hdigits, zpow_add₀ (by decide), zpow_natCast]
    push_cast
    ring

section Notations

variable {kept : List Char} {leading : Int}

private theorem notates_small (h : IsDigits kept) (hneg : leading < 0) :
    Notates ('0' :: '.' :: (List.replicate (leading.natAbs - 1) '0' ++ kept))
      ((Nat.ofDigitChars 10 kept 0 : Nat) * 10 ^ (leading + 1 - kept.length)) := by
  have hzero : IsDigits ['0'] := isDigits_zeros (n := 1)
  have hpoint := positional_point hzero (by decide)
    ((isDigits_zeros (n := leading.natAbs - 1)).append h)
  have hplaces : (-((List.replicate (leading.natAbs - 1) '0' ++ kept).length : Int)) =
      leading + 1 - kept.length := by
    rw [List.length_append, List.length_replicate]
    omega
  rw [hplaces, Nat.ofDigitChars_append, Nat.ofDigitChars_append,
    Nat.ofDigitChars_replicate_zero] at hpoint
  exact hpoint.toNotates

private theorem notates_padded (h : IsDigits kept) (hne : kept ≠ []) (zeros : Nat) :
    Notates (kept ++ List.replicate zeros '0' ++ ['.', '0'])
      ((Nat.ofDigitChars 10 kept 0 : Nat) * 10 ^ (zeros : Int)) := by
  have hwhole : kept ++ List.replicate zeros '0' ≠ [] := List.append_ne_nil_of_left_ne_nil hne _
  have hpoint := positional_point (h.append isDigits_zeros) hwhole (isDigits_zeros (n := 1))
  have hvalue : (Nat.ofDigitChars 10 kept 0 : ℚ) * 10 ^ (zeros : Int) =
      (Nat.ofDigitChars 10 (kept ++ List.replicate zeros '0' ++ List.replicate 1 '0') 0 : Nat) *
        10 ^ (-((List.replicate 1 '0').length : Int)) := by
    rw [Nat.ofDigitChars_append, Nat.ofDigitChars_append, Nat.ofDigitChars_replicate_zero,
      Nat.ofDigitChars_replicate_zero, List.length_replicate, zpow_natCast]
    push_cast
    rw [zpow_neg_one]
    ring
  exact hvalue ▸ hpoint.toNotates

private theorem notates_within (h : IsDigits kept) {width : Nat} (hpos : 0 < width)
    (hlt : width < kept.length) :
    Notates (kept.take width ++ '.' :: kept.drop width)
      ((Nat.ofDigitChars 10 kept 0 : Nat) * 10 ^ (width - kept.length : Int)) := by
  have hwhole : kept.take width ≠ [] := by
    rw [Ne, List.take_eq_nil_iff]
    exact not_or.mpr ⟨hpos.ne', List.ne_nil_of_length_pos (Nat.zero_lt_of_lt hlt)⟩
  have hpoint := positional_point (fun c hc => h c (List.mem_of_mem_take hc)) hwhole
    (fun c hc => h c (List.mem_of_mem_drop hc) : IsDigits (kept.drop width))
  rw [List.take_append_drop, List.length_drop, Nat.cast_sub hlt.le, neg_sub] at hpoint
  exact hpoint.toNotates

private theorem notates_large (h : IsDigits kept) (hne : kept ≠ []) (hneg : ¬ leading < 0) :
    Notates (kept.take (leading.natAbs + 1) ++
        List.replicate (leading.natAbs + 1 - kept.length) '0' ++
        '.' :: (if (kept.drop (leading.natAbs + 1)).isEmpty then ['0']
          else kept.drop (leading.natAbs + 1)))
      ((Nat.ofDigitChars 10 kept 0 : Nat) * 10 ^ (leading + 1 - kept.length)) := by
  have hplaces : leading + 1 = (leading.natAbs + 1 : Nat) := by omega
  rw [hplaces]
  simp only [List.isEmpty_iff, List.drop_eq_nil_iff]
  split
  case isTrue hle =>
    have hzeros : ((leading.natAbs + 1 : Nat) - kept.length : Int) =
        (leading.natAbs + 1 - kept.length : Nat) := (Nat.cast_sub hle).symm
    rw [List.take_of_length_le hle, hzeros]
    exact notates_padded h hne _
  case isFalse hlt =>
    have hlt := Nat.lt_of_not_le hlt
    rw [Nat.sub_eq_zero_of_le hlt.le, List.replicate_zero, List.append_nil]
    exact notates_within h (Nat.succ_pos _) hlt

private theorem notates_scientific (h : IsDigits kept) (hne : kept ≠ []) :
    Notates (kept.take 1 ++ (if (kept.drop 1).isEmpty then [] else '.' :: kept.drop 1) ++
        'e' :: (if leading < 0 then '-' else '+') :: Nat.toDigits 10 leading.natAbs)
      ((Nat.ofDigitChars 10 kept 0 : Nat) * 10 ^ (leading + 1 - kept.length)) := by
  obtain ⟨c, rest, rfl⟩ := List.exists_cons_of_ne_nil hne
  obtain ⟨hc, hrest⟩ := List.forall_mem_cons.mp h
  have hfirst : IsDigits [c] := List.forall_mem_singleton.mpr hc
  have hplaces : leading + 1 - (c :: rest).length = -(rest.length : Int) + leading := by
    rw [List.length_cons]
    omega
  rw [hplaces, zpow_add₀ (by decide), ← mul_assoc]
  refine Positional.withPower ?_ leading
  cases rest with
  | nil =>
    rw [List.length_nil, Nat.cast_zero, neg_zero, zpow_zero, mul_one]
    exact positional_whole hfirst (List.cons_ne_nil c [])
  | cons c' rest => exact positional_point hfirst (List.cons_ne_nil c []) hrest

end Notations

/-- Each notation of the writer stands for the decimal. -/
theorem notates_write (layout : DecimalLayout) (d : Decimal) (hpos : 0 < d.digits) :
    Notates (layout.write d) d.value := by
  obtain ⟨kept, hkept, hdigits, hne, hvalue⟩ := exists_kept d hpos
  simp only [DecimalLayout.write, ← hkept]
  generalize hleading : d.exponent + (Nat.toDigits 10 d.digits).length - 1 = leading
  have hplace : d.exponent + (Nat.toDigits 10 d.digits).length - kept.length =
      leading + 1 - kept.length := by
    omega
  rw [hvalue, hplace]
  split
  · split
    · exact notates_small hdigits ‹_›
    · exact notates_large hdigits hne ‹_›
  · exact notates_scientific hdigits hne

/-- A notation does not begin with a sign, so a sign in front of it can be told. -/
theorem signed_inj {text text' : List Char} {x x' : ℚ} {negative negative' : Bool}
    (hnotates : Notates text x) (hnotates' : Notates text' x')
    (h : (if negative then ['-'] else []) ++ text = (if negative' then ['-'] else []) ++ text') :
    negative = negative' ∧ text = text' := by
  obtain ⟨c, rest, rfl, hc⟩ := hnotates.leads
  obtain ⟨c', rest', rfl, hc'⟩ := hnotates'.leads
  cases negative <;> cases negative'
  case false.false => exact ⟨rfl, h⟩
  case false.true =>
    obtain rfl : c = '-' := (List.cons.inj h).1
    cases hc
  case true.false =>
    obtain rfl : '-' = c' := (List.cons.inj h).1
    cases hc'
  case true.true => exact ⟨rfl, (List.cons.inj h).2⟩

end Numeral

theorem FloatFormat.bits_eq (f : FloatFormat) {bits bits' : Nat} (hbits : bits < 2 * f.signBit)
    (hbits' : bits' < 2 * f.signBit) (hnegative : f.isNegative bits = f.isNegative bits')
    (hmagnitude : f.magnitude bits = f.magnitude bits') : bits = bits' := by
  rw [isNegative, isNegative, decide_eq_decide] at hnegative
  rw [magnitude, magnitude] at hmagnitude
  by_cases hle : f.signBit ≤ bits
  · have hle' := hnegative.mp hle
    rw [Nat.mod_eq_sub_mod hle, Nat.mod_eq_sub_mod hle', Nat.mod_eq_of_lt (by omega),
      Nat.mod_eq_of_lt (by omega)] at hmagnitude
    omega
  · have hle' := mt hnegative.mpr hle
    rwa [Nat.mod_eq_of_lt (by omega), Nat.mod_eq_of_lt (by omega)] at hmagnitude

namespace DecimalLayout

open Numeral

variable {layout : DecimalLayout} {f : FloatFormat} {bits bits' : Nat}

/-- A finite word is written as its sign and a notation of a decimal that reads back to it. -/
theorem writeWord?_spec (layout : DecimalLayout) (hp : 2 * f.fractionBound < 10 ^ 16)
    (hfinite : f.magnitude bits < f.infinity) :
    ∃ text d, layout.writeWord? f bits =
        some ((if f.isNegative bits then ['-'] else []) ++ text) ∧
      Notates text d.value ∧ f.readsBack (f.magnitude bits) d = true := by
  have hzero : IsDigits ['0'] := isDigits_zeros (n := 1)
  simp only [writeWord?, if_neg (Nat.not_le.mpr hfinite)]
  rcases Nat.eq_zero_or_pos (f.magnitude bits) with heq | hpos
  · refine ⟨['0', '.', '0'], ⟨0, 0⟩, by rw [if_pos heq], ?_, ?_⟩
    · have hpoint := (positional_point hzero (List.cons_ne_nil _ _) hzero).toNotates
      have hvalue : (Nat.ofDigitChars 10 (['0'] ++ ['0']) 0 : ℚ) *
          10 ^ (-((['0'].length : Nat) : Int)) = Decimal.value ⟨0, 0⟩ := by
        simp [Decimal.value, Nat.ofDigitChars_cons]
      exact hvalue ▸ hpoint
    · rw [heq]
      exact FloatFormat.readsBack_iff.mpr rfl
  · have hsign : f.magnitude (f.magnitude bits) = f.magnitude bits := Nat.mod_mod _ _
    obtain ⟨d, hshortest, hback⟩ := FloatFormat.shortest?_spec hp hpos hfinite hsign
    refine ⟨layout.write d, d, ?_, ?_, hback⟩
    · rw [if_neg hpos.ne', hshortest]
      rfl
    · exact notates_write layout d (FloatFormat.digits_pos_of_readsBack hpos hback)

/-- Two finite words of a format are not written alike. -/
theorem writeWord?_inj (hp : 2 * f.fractionBound < 10 ^ 16) (hbits : bits < 2 * f.signBit)
    (hbits' : bits' < 2 * f.signBit) (hfinite : f.magnitude bits < f.infinity)
    (hfinite' : f.magnitude bits' < f.infinity)
    (h : layout.writeWord? f bits = layout.writeWord? f bits') : bits = bits' := by
  obtain ⟨text, d, htext, hnotates, hback⟩ := writeWord?_spec layout hp hfinite
  obtain ⟨text', d', htext', hnotates', hback'⟩ := writeWord?_spec layout hp hfinite'
  rw [htext, htext', Option.some.injEq] at h
  obtain ⟨hnegative, rfl⟩ := signed_inj hnotates hnotates' h
  have hmagnitude : f.magnitude bits = f.magnitude bits' :=
    FloatFormat.readsBack_inj (hnotates.value_eq.symm.trans hnotates'.value_eq) hback hback'
  exact f.bits_eq hbits hbits' hnegative hmagnitude

end DecimalLayout

end Arboretum

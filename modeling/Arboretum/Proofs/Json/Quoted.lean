import Arboretum.Json.Basic
import Arboretum.Json.Raw

/-!
The reader of string literals gives back what the writer quotes, a control character perhaps as the
number of its unit. So a quoted text ends in one place, and no two texts are quoted alike.
-/

namespace Arboretum

open Json RawJson

def quotedPart (c : Char) : StringPart :=
  if 32 ≤ c.toNat ∨ c.toNat ∈ [8, 9, 10, 12, 13] then .char c else .unit c.toNat

theorem quotedPart_inj {c d : Char} (h : quotedPart c = quotedPart d) : c = d := by
  unfold quotedPart at h
  split at h <;> split at h
  · exact StringPart.char.inj h
  · cases h
  · cases h
  · exact Char.toNat_inj.mp (StringPart.unit.inj h)

private theorem hexDigit?_hexDigit : ∀ n < 16, hexDigit? (hexDigit n) = some n := by
  decide

private theorem hexUnit?_control {n : Nat} (h : n < 32) :
    hexUnit? '0' '0' (hexDigit (n / 16)) (hexDigit (n % 16)) = some n := by
  have hzero : hexDigit? '0' = some 0 := rfl
  simp only [hexUnit?, hzero, hexDigit?_hexDigit _ (show n / 16 < 16 by omega),
    hexDigit?_hexDigit _ (Nat.mod_lt n (by decide)), Option.bind_eq_bind, Option.bind_some]
  exact congrArg some (by omega)

private theorem stringBody?_escape (c : Char) (rest : List Char) :
    stringBody? (escape c ++ rest) =
      (stringBody? rest).map fun read => (quotedPart c :: read.1, read.2) := by
  by_cases hquote : c = '"'
  · subst hquote
    simp only [escape, if_true, List.cons_append, List.nil_append, stringBody?]
    cases stringBody? rest <;> rfl
  by_cases hslash : c = '\\'
  · subst hslash
    simp only [escape, hquote, if_false, if_true, List.cons_append, List.nil_append, stringBody?]
    cases stringBody? rest <;> rfl
  by_cases hplain : 32 ≤ c.toNat
  · rw [escape, if_neg hquote, if_neg hslash, if_pos hplain, quotedPart, if_pos (Or.inl hplain),
      List.singleton_append, stringBody?, if_neg (Nat.not_lt.mpr hplain)]
    · exact hquote
    all_goals simp [hslash]
  simp only [escape, hquote, hslash, hplain, if_false]
  split
  case h_1 hcode | h_2 hcode | h_3 hcode | h_4 hcode | h_5 hcode =>
    have hchar := Char.ofNat_toNat c
    rw [hcode] at hchar
    subst hchar
    simp only [List.cons_append, List.nil_append, stringBody?]
    cases stringBody? rest <;> rfl
  case h_6 h8 h9 h10 h12 h13 =>
    have hunit := hexUnit?_control (Nat.lt_of_not_le hplain)
    have hpart : quotedPart c = .unit c.toNat := by
      rw [quotedPart, if_neg]
      simp only [List.mem_cons, List.not_mem_nil, or_false, not_or]
      exact ⟨hplain, h8, h9, h10, h12, h13⟩
    simp only [List.cons_append, List.nil_append, stringBody?, hunit, hpart]
    cases stringBody? rest <;> rfl

theorem stringBody?_quote (text rest : List Char) :
    stringBody? (text.flatMap escape ++ '"' :: rest) = some (text.map quotedPart, rest) := by
  induction text with
  | nil => rw [List.flatMap_nil, List.nil_append, stringBody?, List.map_nil]
  | cons c text ih =>
    rw [List.flatMap_cons, List.append_assoc, stringBody?_escape, ih]
    rfl

/-- A quoted text can be told from what follows it. -/
theorem quote_append_inj {text text' : String} {rest rest' : List Char}
    (h : quote text ++ rest = quote text' ++ rest') : text = text' ∧ rest = rest' := by
  simp only [quote, List.cons_append, List.append_assoc, List.nil_append, List.cons.injEq,
    true_and] at h
  have hread := congrArg stringBody? h
  rw [stringBody?_quote, stringBody?_quote, Option.some.injEq, Prod.mk.injEq] at hread
  exact ⟨String.toList_inj.mp ((List.map_inj_right fun _ _ => quotedPart_inj).mp hread.1), hread.2⟩

end Arboretum

import Arboretum.Json.Reader
import Arboretum.Proofs.Json.Compact

/-!
Number and string literals, read where they were written. The scanner of numbers looks no further
than one word, so a literal is read alike on its own and in front of any text in which no word goes
on.
-/

namespace Arboretum

open Json RawJson
open Numeral hiding digits

/-- A scanner that looks no further than one word: it leaves an end of the text, and text behind the
word changes nothing. -/
def Stops {α : Type} (scan : List Char → Option (α × List Char)) : Prop :=
  ∀ text a rest, scan text = some (a, rest) → rest <:+ text ∧
    ∀ more, Closes more → scan (text ++ more) = some (a, rest ++ more)

namespace Stops

variable {α β : Type} {scan : List Char → Option (α × List Char)}

theorem bind {next : α × List Char → Option (β × List Char)} (h : Stops scan)
    (hnext : ∀ a, Stops fun text => next (a, text)) : Stops fun text => (scan text).bind next := by
  intro text b rest hread
  obtain ⟨⟨a, middle⟩, hscan, hread⟩ := Option.bind_eq_some_iff.mp hread
  obtain ⟨hsuffix, hstays⟩ := h _ _ _ hscan
  obtain ⟨hsuffix', hstays'⟩ := hnext a _ _ _ hread
  refine ⟨hsuffix'.trans hsuffix, fun more hmore => ?_⟩
  simp only [hstays more hmore, Option.bind_some]
  exact hstays' more hmore

theorem done (a : α) : Stops fun text => some (a, text) := by
  intro text b rest hread
  cases hread
  exact ⟨List.suffix_refl _, fun _ _ => rfl⟩

theorem map (f : α → β) (h : Stops scan) :
    Stops fun text => (scan text).map fun read => (f read.1, read.2) := by
  intro text b rest hread
  obtain ⟨⟨a, rest⟩, hscan, heq⟩ := Option.map_eq_some_iff.mp hread
  cases heq
  obtain ⟨hsuffix, hstays⟩ := h _ _ _ hscan
  refine ⟨hsuffix, fun more hmore => ?_⟩
  simp only [hstays more hmore, Option.map_some]

/-- A scanner that goes on behind some first characters and stays where it is at any other one. -/
theorem atHead (p : Char → Prop) (a : α) (next : Char → List Char → Option (α × List Char))
    (hword : ∀ c, p c → isWordChar c = true)
    (hstay : ∀ text, (∀ c ∈ text.head?, ¬ p c) → scan text = some (a, text))
    (hgo : ∀ c text, p c → scan (c :: text) = next c text) (hnext : ∀ c, Stops (next c)) :
    Stops scan := by
  intro text found rest h
  match text with
  | [] =>
    rw [hstay [] fun c hc => nomatch hc] at h
    cases h
    refine ⟨List.suffix_refl _, fun more hmore => hstay more fun c hc hp => ?_⟩
    exact Bool.false_ne_true ((hmore c hc).symm.trans (hword c hp))
  | c :: text =>
    by_cases hp : p c
    · rw [hgo c text hp] at h
      obtain ⟨hsuffix, hstays⟩ := hnext c _ _ _ h
      refine ⟨hsuffix.trans (List.suffix_cons _ _), fun more hmore => ?_⟩
      rw [List.cons_append, hgo c _ hp]
      exact hstays more hmore
    · have hnone : ∀ text, scan (c :: text) = some (a, c :: text) := fun text =>
        hstay _ fun d hd => Option.some.inj hd ▸ hp
      rw [hnone] at h
      cases h
      exact ⟨List.suffix_refl _, fun more _ => hnone _⟩

end Stops

section Scanners

variable {text more : List Char} {c : Char}

private theorem digit?_eq_none (h : isWordChar c = false) : digit? c = none := by
  have hdigit : c.isDigit = false := by
    simp only [isWordChar, Char.isAlphanum, Bool.or_eq_false_iff] at h
    exact h.1.1.1.2
  rw [digit?, if_neg]
  rintro ⟨hle, hge⟩
  rw [Char.isDigit, Bool.and_eq_false_iff, decide_eq_false_iff_not,
    decide_eq_false_iff_not] at hdigit
  exact hdigit.elim (fun hn => hn hle) fun hn => hn hge

theorem digits_append (text : List Char) (hmore : Closes more) :
    digits (text ++ more) = ((digits text).1, (digits text).2 ++ more) := by
  induction text with
  | nil =>
    cases more with
    | nil => rfl
    | cons c more => simp only [List.nil_append, digits, digit?_eq_none (hmore c rfl)]
  | cons c text ih =>
    rw [List.cons_append, digits, digits, ih]
    cases digit? c <;> rfl

private theorem digits_suffix (text : List Char) : (digits text).2 <:+ text := by
  induction text with
  | nil => exact List.suffix_refl _
  | cons c text ih =>
    rw [digits]
    cases digit? c with
    | none => exact List.suffix_refl _
    | some digit => exact ih.trans (List.suffix_cons c text)

private theorem someDigits?_eq_some_iff {found : List Nat} {rest : List Char} :
    someDigits? text = some (found, rest) ↔ digits text = (found, rest) ∧ found ≠ [] := by
  rw [someDigits?]
  split
  case h_1 heq =>
    rw [heq, Prod.mk.injEq]
    constructor
    · rintro ⟨⟩
    · rintro ⟨⟨rfl, -⟩, hne⟩
      exact absurd rfl hne
  case h_2 hne =>
    rw [Option.some.injEq, iff_self_and]
    rintro heq rfl
    exact hne rest heq

private theorem someDigits?_stops : Stops someDigits? := by
  intro text found rest h
  obtain ⟨hdigits, hne⟩ := someDigits?_eq_some_iff.mp h
  refine ⟨?_, fun more hmore => ?_⟩
  · have hsuffix := digits_suffix text
    rwa [hdigits] at hsuffix
  · rw [someDigits?_eq_some_iff, digits_append text hmore, hdigits]
    exact ⟨rfl, hne⟩

private theorem fraction?_stops : Stops fraction? := by
  refine .atHead (· = '.') none
    (fun _ text => (someDigits? text).map fun found => (some found.1, found.2)) ?_ ?_ ?_
    fun _ => someDigits?_stops.map some
  · rintro _ rfl
    rfl
  · intro text h
    rw [fraction?]
    rintro text rfl
    exact h '.' rfl rfl
  · rintro _ text rfl
    rfl

def sign (text : List Char) : Bool × List Char :=
  match text with
  | '-' :: text => (true, text)
  | text => (false, text)

def powerSign (text : List Char) : Bool × List Char :=
  match text with
  | '-' :: text => (true, text)
  | '+' :: text => (false, text)
  | text => (false, text)

private theorem sign_stops : Stops fun text => some (sign text) := by
  refine .atHead (· = '-') false (fun _ text => some (true, text)) ?_ ?_ ?_ fun _ => .done true
  · rintro _ rfl
    rfl
  · intro text h
    rw [sign]
    rintro text rfl
    exact h '-' rfl rfl
  · rintro _ text rfl
    rfl

private theorem powerSign_stops : Stops fun text => some (powerSign text) := by
  refine .atHead (fun c => c = '-' ∨ c = '+') false (fun c text => some (c == '-', text)) ?_ ?_ ?_
    fun c => .done (c == '-')
  · rintro _ (rfl | rfl) <;> rfl
  · intro text h
    rw [powerSign]
    · rintro text rfl
      exact h '-' rfl (.inl rfl)
    · rintro text rfl
      exact h '+' rfl (.inr rfl)
  · rintro _ text (rfl | rfl) <;> rfl

private theorem exponent?_stops : Stops exponent? := by
  have hpower : Stops fun text => (some (powerSign text)).bind fun read =>
      (someDigits? read.2).map fun found => (some (read.1, found.1), found.2) := by
    refine powerSign_stops.bind fun negative => ?_
    dsimp only
    exact someDigits?_stops.map fun found => some (negative, found)
  refine .atHead (fun c => c = 'e' ∨ c = 'E') none _ ?_ ?_ ?_ fun _ => hpower
  · rintro _ (rfl | rfl) <;> rfl
  · intro text h
    cases text with
    | nil => rfl
    | cons c text => simp only [exponent?, if_neg (h c rfl)]
  · intro c text hc
    simp only [exponent?, if_pos hc, powerSign]
    rfl

theorem number?_eq : number? = fun text => (some (sign text)).bind fun negative =>
    (someDigits? negative.2).bind fun whole =>
      if whole.1.head? = some 0 ∧ 1 < whole.1.length then none
      else (fraction? whole.2).bind fun fraction => (exponent? fraction.2).map fun exponent =>
        (⟨negative.1, whole.1, fraction.1, exponent.1⟩, exponent.2) := by
  funext text
  simp only [number?, Option.bind_some, Option.map_eq_bind]
  refine Option.bind_congr fun whole _ => ?_
  split
  · rfl
  · refine Option.bind_congr fun fraction _ => ?_
    rfl

theorem number?_stops : Stops number? := by
  rw [number?_eq]
  refine sign_stops.bind fun negative => ?_
  dsimp only
  refine someDigits?_stops.bind fun whole => ?_
  dsimp only
  by_cases hzero : whole.head? = some 0 ∧ 1 < whole.length
  · simp only [if_pos hzero]
    rintro _ _ _ ⟨⟩
  · simp only [if_neg hzero]
    refine fraction?_stops.bind fun fraction => ?_
    dsimp only
    exact exponent?_stops.map fun exponent => NumberLiteral.mk negative whole fraction exponent

end Scanners

section Integers

variable {text : List Char} {n : Nat}

private theorem digits_of_isDigits (h : IsDigits text) :
    digits text = (text.map fun c => c.toNat - 48, []) := by
  induction text with
  | nil => rfl
  | cons c text ih =>
    obtain ⟨hc, htext⟩ := List.forall_mem_cons.mp h
    rw [Char.isDigit, Bool.and_eq_true, decide_eq_true_eq, decide_eq_true_eq] at hc
    have hdigit : digit? c = some (c.toNat - 48) := if_pos hc
    simp only [digits, hdigit, ih htext, List.map_cons]

private theorem ofDigits_map (text : List Char) :
    NumberLiteral.ofDigits (text.map fun c => c.toNat - 48) = Nat.ofDigitChars 10 text 0 := by
  rw [NumberLiteral.ofDigits, List.foldl_map, Nat.ofDigitChars_eq_foldl]
  rfl

private theorem head?_toDigits (h : 0 < n) : ∀ c ∈ (Nat.toDigits 10 n).head?, 0 < c.toNat - 48 := by
  induction n using Nat.strongRecOn with
  | ind n ih =>
    rw [Nat.toDigits_eq_if (by decide)]
    split
    case isTrue hlt =>
      have hfirst : ∀ n < 10, 0 < n → 0 < n.digitChar.toNat - 48 := by decide
      simpa using hfirst n hlt h
    case isFalse hge =>
      rw [List.head?_append_of_ne_nil _ Nat.toDigits_ne_nil]
      exact ih (n / 10) (by omega) (by omega)

def integerLiteral (n : Int) : NumberLiteral :=
  ⟨decide (n < 0), (Nat.toDigits 10 n.natAbs).map fun c => c.toNat - 48, none, none⟩

private theorem sign_signed (negative : Bool) (h : IsDigits text) :
    sign ((if negative then ['-'] else []) ++ text) = (negative, text) := by
  cases negative
  case true => rfl
  case false =>
    cases text with
    | nil => rfl
    | cons c text =>
      have hplain : c ≠ '-' := by
        rintro rfl
        exact absurd (h '-' List.mem_cons_self) (by decide)
      simp [sign, hplain]

theorem number?_writeInt (n : Int) : number? (writeInt n) = some (integerLiteral n, []) := by
  have hdigits : someDigits? (Nat.toDigits 10 n.natAbs) =
      some ((Nat.toDigits 10 n.natAbs).map fun c => c.toNat - 48, []) :=
    someDigits?_eq_some_iff.mpr ⟨digits_of_isDigits isDigits_toDigits,
      mt List.map_eq_nil_iff.mp Nat.toDigits_ne_nil⟩
  have hzero : ¬ (((Nat.toDigits 10 n.natAbs).map fun c => c.toNat - 48).head? = some 0 ∧
      1 < ((Nat.toDigits 10 n.natAbs).map fun c => c.toNat - 48).length) := by
    rintro ⟨hhead, hlength⟩
    rw [List.head?_map, Option.map_eq_some_iff] at hhead
    obtain ⟨c, hc, hzero⟩ := hhead
    rcases Nat.eq_zero_or_pos n.natAbs with heq | hpos
    · rw [heq] at hlength
      exact absurd hlength (by decide)
    · exact absurd hzero (head?_toDigits hpos c hc).ne'
  rw [number?_eq, writeInt_eq]
  simp only [sign_signed _ isDigits_toDigits, Option.bind_some, hdigits, if_neg hzero]
  rfl

/-- An integer of 64 bits, with a sign or without one, is what its literal stands for. -/
theorem value?_integerLiteral {n : Int} (hlow : -2 ^ 63 ≤ n) (hhigh : n < 2 ^ 64) :
    (integerLiteral n).value? = some (.integer n) := by
  have hwhole : NumberLiteral.ofDigits (integerLiteral n).whole = n.natAbs := by
    rw [integerLiteral, ofDigits_map, Nat.ofDigitChars_ten_toDigits]
  have hnegative : (integerLiteral n).negative = decide (n < 0) := rfl
  have hplain : ((integerLiteral n).fraction.isSome || (integerLiteral n).exponent.isSome) =
      false := rfl
  have hsize : UInt64.size = 2 ^ 64 := rfl
  have hpow : Nat.pow 2 63 = 2 ^ 63 := rfl
  simp only [NumberLiteral.value?, hwhole, hnegative, hplain, Bool.false_eq_true, if_false]
  by_cases hneg : n < 0
  · have hfits : (decide (n < 0) && decide (0 < n.natAbs) && decide (n.natAbs ≤ Nat.pow 2 63)) =
        true := by
      simp only [Bool.and_eq_true, decide_eq_true_eq]
      omega
    rw [if_pos hfits, if_neg (by simp [hneg])]
    exact congrArg (fun n => some (NumberValue.integer n)) (by omega)
  · have hfits : (!decide (n < 0) && decide (n.natAbs < UInt64.size)) = true := by
      simp only [Bool.and_eq_true, Bool.not_eq_true', decide_eq_true_eq, decide_eq_false_iff_not]
      omega
    rw [if_pos hfits]
    exact congrArg (fun n => some (NumberValue.integer n)) (by omega)

/-- What a literal without a fraction or an exponent stands for is an integer only if 64 bits hold
it. -/
theorem bounds_of_value? {literal : NumberLiteral} {n : Int}
    (h : literal.value? = some (.integer n)) : -2 ^ 63 ≤ n ∧ n < 2 ^ 64 := by
  simp only [NumberLiteral.value?] at h
  have hsize : UInt64.size = 2 ^ 64 := rfl
  have hpow : Nat.pow 2 63 = 2 ^ 63 := rfl
  split at h
  · obtain ⟨_, -, heq⟩ := Option.map_eq_some_iff.mp h
    cases heq
  · split at h
    case isTrue hfits =>
      cases h
      rw [Bool.and_eq_true, decide_eq_true_eq] at hfits
      omega
    · split at h
      case isTrue hfits =>
        cases h
        simp only [Bool.and_eq_true, decide_eq_true_eq] at hfits
        omega
      · obtain ⟨_, -, heq⟩ := Option.map_eq_some_iff.mp h
        cases heq

end Integers

theorem unescape?_quotedPart (text : List Char) : unescape? (text.map quotedPart) = some text := by
  induction text with
  | nil => rfl
  | cons c text ih =>
    rw [List.map_cons, quotedPart]
    split
    case isTrue => rw [unescape?, ih]; rfl
    case isFalse hcontrol =>
      have hlt : c.toNat < 32 := Nat.lt_of_not_le (not_or.mp hcontrol).1
      have hplain : ¬ (0xD800 ≤ c.toNat ∧ c.toNat < 0xDC00) := by omega
      rw [unescape?.eq_def]
      simp only [if_neg hplain, ih, Option.map_some, Char.ofNat_toNat]
      exact if_neg (by omega)

theorem text_quotedPart (text : String) :
    JsonReader.text (text.toList.map quotedPart) = some text := by
  rw [JsonReader.text, unescape?_quotedPart, Option.map_some, String.ofList_toList]

end Arboretum

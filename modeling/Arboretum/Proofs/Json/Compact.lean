import Arboretum.Proofs.Json.Printed

/-!
The compact text of a JSON value is the text of what is seen of it, so values with one compact text
are seen alike: structure, keys, strings, truth values and integers are the same, and so are finite
floating-point numbers of one width.
-/

namespace Arboretum

open Numeral

def FloatWord.IsFinite {α : Type} [FloatWord α] (x : α) : Prop :=
  (format α).magnitude (pattern x) < (format α).infinity

instance {α : Type} [FloatWord α] (x : α) : Decidable (FloatWord.IsFinite x) :=
  inferInstanceAs (Decidable (_ < _))

namespace Json

variable {text : List Char} {x : ℚ}

def IsWord (text : List Char) : Prop := text ≠ [] ∧ ∀ c ∈ text, isWordChar c = true

private theorem isWord_nullText : IsWord nullText := ⟨by decide, List.all_eq_true.mp rfl⟩

private theorem isWord_signed (h : Notates text x) (negative : Bool) :
    IsWord ((if negative then ['-'] else []) ++ text) := by
  obtain ⟨c, rest, htext, -⟩ := h.leads
  refine ⟨List.append_ne_nil_of_right_ne_nil _ (htext ▸ List.cons_ne_nil c rest), ?_⟩
  refine List.forall_mem_append.mpr ⟨List.all_eq_true.mp ?_, h.chars⟩
  cases negative <;> rfl

private theorem notates_toDigits (n : Nat) : Notates (Nat.toDigits 10 n) n := by
  have h := (positional_whole (isDigits_toDigits (n := n)) Nat.toDigits_ne_nil).toNotates
  rwa [Nat.ofDigitChars_ten_toDigits] at h

theorem writeInt_eq (n : Int) :
    writeInt n = (if decide (n < 0) then ['-'] else []) ++ Nat.toDigits 10 n.natAbs := by
  rw [writeInt]
  by_cases h : n < 0
  · rw [if_pos h, decide_eq_true h]
    rfl
  · rw [if_neg h, decide_eq_false h]
    rfl

private theorem isWord_writeInt (n : Int) : IsWord (writeInt n) := by
  rw [writeInt_eq]
  exact isWord_signed (notates_toDigits _) _

private theorem writeInt_inj {m n : Int} (h : writeInt m = writeInt n) : m = n := by
  rw [writeInt_eq, writeInt_eq] at h
  obtain ⟨hsign, hdigits⟩ := signed_inj (notates_toDigits _) (notates_toDigits _) h
  have hvalue := congrArg (Nat.ofDigitChars 10 · 0) hdigits
  simp only [Nat.ofDigitChars_ten_toDigits] at hvalue
  rw [decide_eq_decide] at hsign
  omega

private theorem isWord_writeWord (layout : DecimalLayout) {f : FloatFormat}
    (hp : 2 * f.fractionBound < 10 ^ 16) (bits : Nat) :
    IsWord ((layout.writeWord? f bits).getD nullText) := by
  by_cases hfinite : f.magnitude bits < f.infinity
  · obtain ⟨text, d, htext, hnotates, -⟩ := DecimalLayout.writeWord?_spec layout hp hfinite
    rw [htext]
    exact isWord_signed hnotates _
  · rw [DecimalLayout.writeWord?, if_pos (Nat.le_of_not_lt hfinite)]
    exact isWord_nullText

private theorem binary32_tells : 2 * FloatFormat.binary32.fractionBound < 10 ^ 16 := by decide

private theorem binary64_tells : 2 * FloatFormat.binary64.fractionBound < 10 ^ 16 := by decide

private theorem isWord_writeSingle (x : Single) : IsWord (writeSingle x) :=
  isWord_writeWord _ binary32_tells _

theorem isWord_writeDouble (x : Double) : IsWord (writeDouble x) :=
  isWord_writeWord _ binary64_tells _

/-- The two formats tell finite words apart by their texts. -/
theorem writeWord_inj {layout : DecimalLayout} {f : FloatFormat} {bits bits' : Nat}
    (hp : 2 * f.fractionBound < 10 ^ 16) (hbits : bits < 2 * f.signBit)
    (hbits' : bits' < 2 * f.signBit) (hfinite : f.magnitude bits < f.infinity)
    (hfinite' : f.magnitude bits' < f.infinity)
    (h : (layout.writeWord? f bits).getD nullText = (layout.writeWord? f bits').getD nullText) :
    bits = bits' := by
  obtain ⟨text, -, htext, -⟩ := DecimalLayout.writeWord?_spec layout hp hfinite
  obtain ⟨text', -, htext', -⟩ := DecimalLayout.writeWord?_spec layout hp hfinite'
  have hsame : layout.writeWord? f bits = layout.writeWord? f bits' := by
    rw [htext, htext'] at h ⊢
    exact congrArg some h
  exact DecimalLayout.writeWord?_inj hp hbits hbits' hfinite hfinite' hsame

theorem writeSingle_inj {x y : Single} (hx : FloatWord.IsFinite x) (hy : FloatWord.IsFinite y)
    (h : writeSingle x = writeSingle y) : x = y := by
  obtain ⟨bits⟩ := x
  obtain ⟨bits'⟩ := y
  exact congrArg _ (UInt32.toNat_inj.mp
    (writeWord_inj binary32_tells bits.toNat_lt bits'.toNat_lt hx hy h))

theorem writeDouble_inj {x y : Double} (hx : FloatWord.IsFinite x) (hy : FloatWord.IsFinite y)
    (h : writeDouble x = writeDouble y) : x = y := by
  obtain ⟨bits⟩ := x
  obtain ⟨bits'⟩ := y
  exact congrArg _ (UInt64.toNat_inj.mp
    (writeWord_inj binary64_tells bits.toNat_lt bits'.toNat_lt hx hy h))

mutual

/-- What is seen of a value in its text. -/
def printed : Json → Printed
  | null => .word ⟨nullText, isWord_nullText.1, isWord_nullText.2⟩
  | bool true => .word ⟨['t', 'r', 'u', 'e'], by decide, List.all_eq_true.mp rfl⟩
  | bool false => .word ⟨['f', 'a', 'l', 's', 'e'], by decide, List.all_eq_true.mp rfl⟩
  | integer n => .word ⟨writeInt n, (isWord_writeInt n).1, (isWord_writeInt n).2⟩
  | single x => .word ⟨writeSingle x, (isWord_writeSingle x).1, (isWord_writeSingle x).2⟩
  | double x => .word ⟨writeDouble x, (isWord_writeDouble x).1, (isWord_writeDouble x).2⟩
  | string text => .string text
  | array items => .array (printedItems items)
  | object members => .object (printedMembers members)

def printedItems : List Json → List Printed
  | [] => []
  | item :: rest => item.printed :: printedItems rest

def printedMembers : List (String × Json) → List (String × Printed)
  | [] => []
  | (key, value) :: rest => (key, value.printed) :: printedMembers rest

end

mutual

theorem text_printed : ∀ value : Json, value.printed.text = value.compact
  | null => rfl
  | bool true => rfl
  | bool false => rfl
  | integer _ => rfl
  | single _ => rfl
  | double _ => rfl
  | string _ => rfl
  | array items => by rw [printed, Printed.text, texts_printedItems items, compact]
  | object members => by rw [printed, Printed.text, texts_printedMembers members, compact]

private theorem texts_printedItems : ∀ items : List Json,
    Printed.itemTexts (printedItems items) = compactItems items
  | [] => rfl
  | item :: rest => by
    rw [printedItems, Printed.itemTexts, text_printed item, texts_printedItems rest, compactItems]

private theorem texts_printedMembers : ∀ members : List (String × Json),
    Printed.memberTexts (printedMembers members) = compactMembers members
  | [] => rfl
  | (key, value) :: rest => by
    rw [printedMembers, Printed.memberTexts, text_printed value, texts_printedMembers rest,
      compactMembers]

end

/-- One compact text shows one value. -/
theorem printed_eq_of_compactText {a b : Json} (h : a.compactText = b.compactText) :
    a.printed = b.printed := by
  have htext : a.printed.text ++ [] = b.printed.text ++ [] := by
    rw [text_printed, text_printed, String.ofList_injective h]
  have hend : Closes [] := fun _ hc => by cases hc
  exact (a.printed.text_append_inj b.printed hend hend htext).1

section Seen

variable {items items' : List Json} {members members' : List (String × Json)}

private theorem printedItems_eq : printedItems items = items.map printed := by
  induction items with
  | nil => rfl
  | cons item rest ih => rw [printedItems, ih, List.map_cons]

private theorem printedMembers_eq :
    printedMembers members = members.map fun member => (member.1, member.2.printed) := by
  induction members with
  | nil => rfl
  | cons member rest ih => rw [printedMembers, ih, List.map_cons]

@[simp] theorem printed_array : (array items).printed = (array items').printed ↔
    items.map printed = items'.map printed := by
  rw [printed, printed, Printed.array.injEq, printedItems_eq, printedItems_eq]

@[simp] theorem printed_object : (object members).printed = (object members').printed ↔
    (members.map fun member => (member.1, member.2.printed)) =
      members'.map fun member => (member.1, member.2.printed) := by
  rw [printed, printed, Printed.object.injEq, printedMembers_eq, printedMembers_eq]

@[simp] theorem printed_integer {m n : Int} :
    (integer m).printed = (integer n).printed ↔ m = n := by
  constructor
  · intro h
    rw [printed, printed, Printed.word.injEq, Word.mk.injEq] at h
    exact writeInt_inj h
  · rintro rfl
    rfl

@[simp] theorem printed_bool {b c : Bool} : (bool b).printed = (bool c).printed ↔ b = c := by
  cases b <;> cases c <;> simp [printed]

@[simp] theorem printed_string {s t : String} :
    (string s).printed = (string t).printed ↔ s = t := by
  rw [printed, printed, Printed.string.injEq]

theorem printed_single {x y : Single} (hx : FloatWord.IsFinite x) (hy : FloatWord.IsFinite y) :
    (single x).printed = (single y).printed ↔ x = y := by
  constructor
  · intro h
    rw [printed, printed, Printed.word.injEq, Word.mk.injEq] at h
    exact writeSingle_inj hx hy h
  · rintro rfl
    rfl

theorem printed_double {x y : Double} (hx : FloatWord.IsFinite x) (hy : FloatWord.IsFinite y) :
    (double x).printed = (double y).printed ↔ x = y := by
  constructor
  · intro h
    rw [printed, printed, Printed.word.injEq, Word.mk.injEq] at h
    exact writeDouble_inj hx hy h
  · rintro rfl
    rfl

end Seen

end Json

end Arboretum

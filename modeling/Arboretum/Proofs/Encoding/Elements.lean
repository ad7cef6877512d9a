import Arboretum.Proofs.Result
import Arboretum.Model.Basic
import Mathlib.Algebra.Group.Nat.Defs

/-!
Values and their bytes. Bytes determine a number below the power of 256 that they can count to and
are determined by it, and every element type recognizes the codes of its values and no others; so
what is written is read back, and what is read would be written again with the same bytes. Columns
follow element by element, and texts are well-formed UTF-8 from the start.
-/

namespace Arboretum

namespace LittleEndian

@[simp] theorem length_bytes (width n : Nat) : (bytes width n).length = width := by
  induction width generalizing n with
  | zero => rfl
  | succ width ih => rw [bytes, List.length_cons, ih]

private theorem number_bytes (width n : Nat) : number (bytes width n) = n % 256 ^ width := by
  induction width generalizing n with
  | zero => rw [bytes, number, Nat.pow_zero, Nat.mod_one]
  | succ width ih =>
    have hbyte : (UInt8.ofNat (n % 256)).toNat = n % 256 :=
      UInt8.toNat_ofNat_of_lt' (Nat.mod_lt n (by decide))
    rw [bytes, number, ih, hbyte, Nat.pow_succ', Nat.mod_mul]

theorem number_bytes_of_lt {width n : Nat} (h : n < 256 ^ width) :
    number (bytes width n) = n := by
  rw [number_bytes, Nat.mod_eq_of_lt h]

private theorem number_lt (l : List UInt8) : number l < 256 ^ l.length := by
  induction l with
  | nil => exact Nat.one_pos
  | cons byte l ih =>
    have hbyte : byte.toNat < 256 := byte.toNat_lt
    rw [number, List.length_cons, Nat.pow_succ']
    omega

theorem bytes_number (l : List UInt8) : bytes l.length (number l) = l := by
  induction l with
  | nil => rfl
  | cons byte l ih =>
    have hbyte : byte.toNat < 256 := byte.toNat_lt
    have hlow : (byte.toNat + 256 * number l) % 256 = byte.toNat := by omega
    have hhigh : (byte.toNat + 256 * number l) / 256 = number l := by omega
    rw [number, List.length_cons, bytes, hlow, hhigh, ih, UInt8.ofNat_toNat]

end LittleEndian

/-- An element type whose codes fit in its width and are recognized. -/
class LawfulElement (α : Type) [Element α] : Prop where
  width_pos : 0 < Element.width α
  code_lt : ∀ value : α, Element.code value < 256 ^ Element.width α
  ofCode_code : ∀ value : α, Element.ofCode (Element.code value) = .ok value

instance : LawfulElement UInt8 where
  width_pos := by decide
  code_lt value := value.toNat_lt
  ofCode_code _ := congrArg Except.ok UInt8.ofNat_toNat

instance : LawfulElement Int32 where
  width_pos := by decide
  code_lt value := value.toUInt32.toNat_lt
  ofCode_code value := by
    change Except.ok (UInt32.ofNat value.toUInt32.toNat).toInt32 = _
    rw [UInt32.ofNat_toNat, Int32.toInt32_toUInt32]

instance : LawfulElement UInt32 where
  width_pos := by decide
  code_lt value := value.toNat_lt
  ofCode_code _ := congrArg Except.ok UInt32.ofNat_toNat

instance : LawfulElement UInt64 where
  width_pos := by decide
  code_lt value := value.toNat_lt
  ofCode_code _ := congrArg Except.ok UInt64.ofNat_toNat

instance : LawfulElement Single where
  width_pos := by decide
  code_lt value := value.bits.toNat_lt
  ofCode_code _ := congrArg (fun bits => Except.ok (Single.mk bits)) UInt32.ofNat_toNat

instance : LawfulElement Double where
  width_pos := by decide
  code_lt value := value.bits.toNat_lt
  ofCode_code _ := congrArg (fun bits => Except.ok (Double.mk bits)) UInt64.ofNat_toNat

instance : LawfulElement Bool where
  width_pos := by decide
  code_lt value := by cases value <;> decide
  ofCode_code value := by cases value <;> rfl

instance : LawfulElement ValueType where
  width_pos := by decide
  code_lt value := by cases value <;> decide
  ofCode_code value := by cases value <;> rfl

instance : LawfulElement Task where
  width_pos := by decide
  code_lt value := by cases value <;> decide
  ofCode_code value := by cases value <;> rfl

instance : LawfulElement Comparison where
  width_pos := by decide
  code_lt value := by cases value <;> decide
  ofCode_code value := by cases value <;> rfl

instance : LawfulElement NodeKind where
  width_pos := by decide
  code_lt value := by cases value <;> decide
  ofCode_code value := by cases value <;> rfl

instance : (p : Precision) → LawfulElement p.Word
  | .single => inferInstanceAs (LawfulElement Single)
  | .double => inferInstanceAs (LawfulElement Double)

instance : (p : Pairing) → LawfulElement p.Leaf
  | ⟨precision, false⟩ => inferInstanceAs (LawfulElement precision.Word)
  | ⟨_, true⟩ => inferInstanceAs (LawfulElement UInt32)

/-- An element type that recognizes no other code of its width than those of its values. -/
class StrictElement (α : Type) [Element α] : Prop where
  code_of_ofCode {n : Nat} {value : α} : n < 256 ^ Element.width α →
    Element.ofCode n = .ok value → Element.code value = n

instance : StrictElement Int32 where
  code_of_ofCode {n value} hn h := by
    cases h
    change (UInt32.ofNat n).toInt32.toUInt32.toNat = n
    rw [UInt32.toUInt32_toInt32, UInt32.toNat_ofNat_of_lt' hn]

instance : StrictElement UInt32 where
  code_of_ofCode hn h := by
    cases h
    exact UInt32.toNat_ofNat_of_lt' hn

instance : StrictElement UInt64 where
  code_of_ofCode hn h := by
    cases h
    exact UInt64.toNat_ofNat_of_lt' hn

instance : StrictElement Single where
  code_of_ofCode hn h := by
    cases h
    exact UInt32.toNat_ofNat_of_lt' hn

instance : StrictElement Double where
  code_of_ofCode hn h := by
    cases h
    exact UInt64.toNat_ofNat_of_lt' hn

instance : StrictElement Bool where
  code_of_ofCode {n value} _ h := by
    change (if n = 0 then Except.ok false else if n = 1 then .ok true else _) = _ at h
    split at h
    · cases h
      exact Eq.symm ‹n = 0›
    · split at h
      · cases h
        exact Eq.symm ‹n = 1›
      · cases h

private theorem code_of_constantOfCode {α : Type} [Enumeration α] {signed : Bool} {n : Nat}
    {value : α} (h : constantOfCode signed n = .ok value) : Enumeration.code value = n := by
  rw [constantOfCode] at h
  cases hfound : Enumeration.ofCode? (α := α) n with
  | none =>
    rw [hfound] at h
    cases h
  | some found =>
    rw [hfound] at h
    cases h
    have hcode := List.find?_some hfound
    exact beq_iff_eq.mp hcode

instance : StrictElement ValueType where
  code_of_ofCode _ h := code_of_constantOfCode h

instance : StrictElement Task where
  code_of_ofCode _ h := code_of_constantOfCode h

instance : StrictElement Comparison where
  code_of_ofCode _ h := code_of_constantOfCode h

instance : StrictElement NodeKind where
  code_of_ofCode _ h := code_of_constantOfCode h

instance : (p : Precision) → StrictElement p.Word
  | .single => inferInstanceAs (StrictElement Single)
  | .double => inferInstanceAs (StrictElement Double)

instance : (p : Pairing) → StrictElement p.Leaf
  | ⟨precision, false⟩ => inferInstanceAs (StrictElement precision.Word)
  | ⟨_, true⟩ => inferInstanceAs (StrictElement UInt32)

namespace Element

variable {α : Type} [Element α]

@[simp] theorem length_encode (value : α) : (encode value).length = width α :=
  LittleEndian.length_bytes _ _

@[simp] theorem length_encodeAll (values : Array α) :
    (encodeAll values).length = values.size * width α := by
  rw [encodeAll, List.length_flatMap, List.map_congr_left fun value _ => length_encode value,
    List.map_const', List.sum_replicate_nat, Array.length_toList]

variable [LawfulElement α]

theorem decode_encode (value : α) : decode (encode value) = .ok value := by
  rw [decode, encode, LittleEndian.number_bytes_of_lt (LawfulElement.code_lt value)]
  exact LawfulElement.ofCode_code value

private theorem decodeMany_encode (values : List α) :
    decodeMany values.length (values.flatMap encode) = .ok values := by
  induction values with
  | nil => rfl
  | cons value values ih =>
    have hlength := length_encode value
    rw [List.length_cons, decodeMany, List.flatMap_cons, List.take_left' hlength,
      List.drop_left' hlength, decode_encode, ok_bind, ih]
    rfl

theorem decodeAll_encodeAll (values : Array α) : decodeAll (encodeAll values) = .ok values := by
  have hwidth : 0 < width α := LawfulElement.width_pos
  rw [decodeAll, length_encodeAll, Nat.mul_mod_left, if_neg (by decide),
    Nat.mul_div_cancel _ hwidth, encodeAll, ← Array.length_toList, decodeMany_encode]
  rfl

end Element

namespace Element

variable {α : Type} [Element α] [StrictElement α]

theorem encode_of_decode {bytes : List UInt8} {value : α} (hlength : bytes.length = width α)
    (h : decode bytes = .ok value) : encode value = bytes := by
  have hlt : LittleEndian.number bytes < 256 ^ width α := hlength ▸ LittleEndian.number_lt bytes
  rw [encode, StrictElement.code_of_ofCode hlt h, ← hlength, LittleEndian.bytes_number]

private theorem encode_of_decodeMany {count : Nat} {bytes : List UInt8} {values : List α}
    (hlength : bytes.length = count * width α) (h : decodeMany count bytes = .ok values) :
    values.length = count ∧ values.flatMap encode = bytes := by
  induction count generalizing bytes values with
  | zero =>
    cases h
    rw [Nat.zero_mul, List.length_eq_zero_iff] at hlength
    exact ⟨rfl, hlength.symm⟩
  | succ count ih =>
    rw [decodeMany] at h
    obtain ⟨value, hvalue, h⟩ := bind_eq_ok.mp h
    obtain ⟨rest, hrest, h⟩ := bind_eq_ok.mp h
    cases h
    rw [Nat.succ_mul] at hlength
    obtain ⟨hcount, hbytes⟩ := ih (by rw [List.length_drop]; omega) hrest
    have hfirst := encode_of_decode (by rw [List.length_take]; omega) hvalue
    refine ⟨by rw [List.length_cons, hcount], ?_⟩
    rw [List.flatMap_cons, hfirst, hbytes, List.take_append_drop]

/-- A column that is read has as many values as there were, and is written with the same bytes. -/
theorem encode_of_decodeAll {count : Nat} {bytes : List UInt8} {values : Array α}
    (hwidth : 0 < width α) (hlength : bytes.length = count * width α)
    (h : decodeAll bytes = .ok values) : values.size = count ∧ encodeAll values = bytes := by
  rw [decodeAll, hlength, Nat.mul_mod_left, if_neg (by decide), Nat.mul_div_cancel _ hwidth] at h
  cases hmany : decodeMany (α := α) count bytes with
  | error fault =>
    rw [hmany] at h
    cases h
  | ok found =>
    rw [hmany] at h
    cases h
    exact encode_of_decodeMany hlength hmany

end Element

theorem textOfBytes_textBytes (text : String) : textOfBytes (textBytes text) = .ok text := by
  have hbytes : (⟨(textBytes text).toArray⟩ : ByteArray) = text.toUTF8 := rfl
  rw [textOfBytes, hbytes, String.toUTF8_eq_toByteArray, String.fromUTF8?, dif_pos text.isValidUTF8]
  rfl

theorem textBytes_of_textOfBytes {bytes : List UInt8} {text : String}
    (h : textOfBytes bytes = .ok text) : textBytes text = bytes := by
  rw [textOfBytes, String.fromUTF8?] at h
  by_cases hvalid : (⟨bytes.toArray⟩ : ByteArray).IsValidUTF8
  · rw [dif_pos hvalid] at h
    cases h
    rfl
  · rw [dif_neg hvalid] at h
    cases h

end Arboretum

import Arboretum.Encoding.Memory
import Arboretum.Proofs.Encoding.Elements
import Mathlib.Data.List.Basic

/-!
Memory against encoding. The memory of a column, found address by address, is what encoding its
values one after another gives; and looking at memory as a column gives what decoding it value by
value gives, the refused ones included.
-/

namespace Arboretum

namespace LittleEndian

private theorem bytes_eq_map (width n : Nat) :
    bytes width n = (List.range width).map fun place => UInt8.ofNat (n >>> (8 * place)) := by
  induction width generalizing n with
  | zero => rfl
  | succ width ih =>
    rw [bytes, ih, List.range_succ_eq_map, List.map_cons, List.map_map, Nat.mul_zero,
      Nat.shiftRight_zero]
    refine congrArg₂ _ UInt8.ofNat_mod_size' (List.map_congr_left fun place _ => ?_)
    rw [Function.comp_apply, Nat.mul_succ, Nat.add_comm, Nat.shiftRight_add,
      Nat.shiftRight_eq_div_pow n 8]

end LittleEndian

namespace Element

private theorem pattern_succ (memory : Array UInt8) (address bytes : Nat) :
    pattern memory address (bytes + 1) =
      (memory.getD address 0).toNat + 256 * pattern memory (address + 1) bytes := by
  rw [pattern, List.range_succ_eq_map, List.foldr_cons, List.foldr_map, pattern,
    Nat.add_zero, Nat.mul_zero, Nat.shiftLeft_zero]
  -- every later byte stands eight bits higher than it does from the next address on; the sum of no
  -- bytes is written as a multiple too, so that a multiple is pulled through the whole fold
  show _ + List.foldr _ (256 * 0) _ = _
  refine congrArg (_ + ·) (List.foldr_hom (256 * ·) fun offset rest => ?_)
  rw [Nat.mul_succ, Nat.shiftLeft_add, Nat.shiftLeft_eq _ 8, Nat.succ_eq_add_one, Nat.mul_add,
    Nat.mul_comm 256 (_ <<< _), Nat.add_assoc, Nat.add_comm 1 offset]

theorem pattern_eq_number (memory : List UInt8) (address bytes : Nat) :
    pattern memory.toArray address bytes =
      LittleEndian.number ((memory.drop address).take bytes) := by
  induction bytes generalizing address with
  | zero => rfl
  | succ bytes ih =>
    rw [pattern_succ, ih]
    by_cases hin : address < memory.length
    · rw [List.drop_eq_getElem_cons hin, List.take_succ_cons, LittleEndian.number]
      simp [hin]
    · have hout : memory.length ≤ address := Nat.le_of_not_lt hin
      rw [List.drop_eq_nil_of_le hout, List.drop_eq_nil_of_le (Nat.le_succ_of_le hout)]
      simp [LittleEndian.number, hin]

variable {α : Type} [Element α]

private theorem encode_eq_map (value : α) :
    encode value = (List.range (width α)).map (byteAt value) :=
  LittleEndian.bytes_eq_map _ _

/-- The memory of a column holds what encoding its values writes. -/
theorem memory_eq_encodeAll (values : Array α) : memory values = encodeAll values := by
  rcases Nat.eq_zero_or_pos (width α) with hzero | hwidth
  · have hnone : ∀ value : α, encode value = [] := by
      intro value
      rw [encode, hzero, LittleEndian.bytes]
    rw [memory, encodeAll, hzero, List.flatMap_congr fun value _ => hnone value, Nat.mul_zero]
    simp
  have hlist : ∀ values : List α, ((List.range (values.length * width α)).filterMap fun address =>
      values[address / width α]?.map fun value => byteAt value (address % width α)) =
      values.flatMap encode := by
    intro values
    induction values with
    | nil => rw [List.length_nil, Nat.zero_mul]; rfl
    | cons value values ih =>
      rw [List.length_cons, Nat.succ_mul, Nat.add_comm, List.range_add, List.filterMap_append,
        List.filterMap_map, List.flatMap_cons, ← ih, encode_eq_map]
      refine congrArg₂ _ ?_ ?_
      · rw [← List.filterMap_eq_map]
        refine List.filterMap_congr fun address haddress => ?_
        have hlt := List.mem_range.mp haddress
        rw [Nat.div_eq_of_lt hlt, Nat.mod_eq_of_lt hlt]
        rfl
      · refine List.filterMap_congr fun address _ => ?_
        rw [Function.comp_apply, Nat.add_div_left _ hwidth, Nat.add_mod_left]
        rfl
  rw [memory, encodeAll, ← hlist, Array.length_toList]
  simp only [Array.getElem?_toList]

theorem valueAt_eq_decode (memory : List UInt8) (place : Nat) :
    (valueAt memory.toArray place : Except FormatFault α) =
      decode ((memory.drop (place * width α)).take (width α)) := by
  rw [valueAt, pattern_eq_number, decode]

theorem decodeMany_eq_mapM (count : Nat) (bytes : List UInt8) :
    decodeMany count bytes =
      (List.range count).mapM fun place =>
        (decode ((bytes.drop (place * width α)).take (width α)) : Except FormatFault α) := by
  induction count generalizing bytes with
  | zero => rfl
  | succ count ih =>
    rw [decodeMany, ih, List.range_succ_eq_map, List.mapM_cons, List.mapM_map, Nat.zero_mul,
      List.drop_zero]
    have hnext : (fun place => (decode (((bytes.drop (width α)).drop (place * width α)).take
        (width α)) : Except FormatFault α)) =
        (fun place => decode ((bytes.drop (place * width α)).take (width α))) ∘ Nat.succ := by
      funext place
      rw [List.drop_drop, Function.comp_apply, Nat.succ_mul, Nat.add_comm]
    rw [hnext]

/-- Looking at memory as a column gives what decoding it value by value gives. -/
theorem view_eq_decodeAll (memory : List UInt8) :
    (view memory : Except FormatFault (Array α)) = decodeAll memory := by
  rw [view, decodeAll, decodeMany_eq_mapM]
  split
  · rfl
  · rw [← forM_then_filterMap]
    simp only [List.size_toArray, valueAt_eq_decode]
    cases (List.range (memory.length / width α)).forM fun place =>
      (decode ((memory.drop (place * width α)).take (width α)) : Except FormatFault α).map
        fun _ => () <;> rfl

end Element

end Arboretum

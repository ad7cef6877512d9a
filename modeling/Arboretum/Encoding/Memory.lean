import Arboretum.Encoding.Element

/-!
Values in the memory of a machine that keeps the lowest byte of a word at the lowest address. The
values of a column lie one behind the other and their bytes are found by address. Memory is looked
at as a column only after every value in it has been checked.
-/

namespace Arboretum.Element

variable {α : Type} [Element α]

/-- The byte of a value at an offset from the address of the value. -/
def byteAt (value : α) (offset : Nat) : UInt8 := .ofNat (code value >>> (8 * offset))

def memory (values : Array α) : List UInt8 :=
  (List.range (values.size * width α)).filterMap fun address =>
    values[address / width α]?.map fun value => byteAt value (address % width α)

/-- The bit pattern of as many bytes from an address on. -/
def pattern (memory : Array UInt8) (address bytes : Nat) : Nat :=
  (List.range bytes).foldr
    (fun offset rest => (memory.getD (address + offset) 0).toNat <<< (8 * offset) + rest) 0

/-- The value at a place of a column in memory, if its bit pattern is one of the type. -/
def valueAt (memory : Array UInt8) (place : Nat) : Except FormatFault α :=
  ofCode (pattern memory (place * width α) (width α))

def view (memory : List UInt8) : Except FormatFault (Array α) := do
  if memory.length % width α ≠ 0 then throw (.unexpectedEnd (.wholeElements (format α)))
  let memory := memory.toArray
  let places := List.range (memory.size / width α)
  places.forM fun place => (valueAt memory place : Except FormatFault α).map fun _ => ()
  return (places.filterMap fun place => (valueAt memory place).toOption).toArray

end Arboretum.Element

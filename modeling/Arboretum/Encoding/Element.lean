import Arboretum.Error
import Arboretum.Numeric.Scalar

/-!
Values of fixed width as bytes. Every element type is coded as a natural number, and the bytes are
those of the number, the lowest first. Booleans and the constants of a vocabulary are strict: a
byte that stands for none of them is refused.
-/

namespace Arboretum

namespace LittleEndian

/-- The lowest `width` bytes of a number, the lowest first. -/
def bytes : Nat → Nat → List UInt8
  | 0, _ => []
  | width + 1, n => .ofNat (n % 256) :: bytes width (n / 256)

/-- The number that bytes stand for, the lowest first. -/
def number : List UInt8 → Nat
  | [] => 0
  | byte :: rest => byte.toNat + 256 * number rest

end LittleEndian

/-- A type whose values are stored in a fixed number of bytes. `format` is the code of the type in
a buffer frame. -/
class Element (α : Type) where
  format : String
  width : Nat
  code : α → Nat
  ofCode : Nat → Except FormatFault α

namespace Element

variable {α : Type} [Element α]

def encode (value : α) : List UInt8 := LittleEndian.bytes (width α) (code value)

def decode (bytes : List UInt8) : Except FormatFault α := ofCode (LittleEndian.number bytes)

def encodeAll (values : Array α) : List UInt8 := values.toList.flatMap encode

def decodeMany : Nat → List UInt8 → Except FormatFault (List α)
  | 0, _ => .ok []
  | count + 1, bytes => do
    let value ← decode (bytes.take (width α))
    let values ← decodeMany count (bytes.drop (width α))
    return value :: values

/-- All values of a byte sequence, which has to be a whole number of them. -/
def decodeAll (bytes : List UInt8) : Except FormatFault (Array α) :=
  if bytes.length % width α ≠ 0 then .error (.unexpectedEnd (.wholeElements (format α)))
  else (decodeMany (bytes.length / width α) bytes).map List.toArray

end Element

instance : Element UInt8 where
  format := "=B"
  width := 1
  code := UInt8.toNat
  ofCode n := .ok (.ofNat n)

instance : Element Int8 where
  format := "=b"
  width := 1
  code n := n.toUInt8.toNat
  ofCode n := .ok (UInt8.ofNat n).toInt8

instance : Element Int32 where
  format := "=l"
  width := 4
  code n := n.toUInt32.toNat
  ofCode n := .ok (UInt32.ofNat n).toInt32

instance : Element UInt32 where
  format := "=L"
  width := 4
  code := UInt32.toNat
  ofCode n := .ok (.ofNat n)

instance : Element UInt64 where
  format := "=Q"
  width := 8
  code := UInt64.toNat
  ofCode n := .ok (.ofNat n)

instance : Element Single where
  format := "=f"
  width := 4
  code x := x.bits.toNat
  ofCode n := .ok ⟨.ofNat n⟩

instance : Element Double where
  format := "=d"
  width := 8
  code x := x.bits.toNat
  ofCode n := .ok ⟨.ofNat n⟩

instance : Element Bool where
  format := "=?"
  width := 1
  code b := if b then 1 else 0
  ofCode n :=
    if n = 0 then .ok false
    else if n = 1 then .ok true
    else .error (.invalidValue "bool" n)

/-- A constant of a vocabulary as its one-byte code. -/
def constantOfCode {α : Type} [Enumeration α] (signed : Bool) (n : Nat) : Except FormatFault α :=
  match Enumeration.ofCode? n with
  | some value => .ok value
  | none =>
    .error (.invalidValue (Enumeration.title α) (if signed && 128 ≤ n then (n : Int) - 256 else n))

instance : Element ValueType where
  format := "=B"
  width := 1
  code := Enumeration.code
  ofCode := constantOfCode false

instance : Element Task where
  format := "=B"
  width := 1
  code := Enumeration.code
  ofCode := constantOfCode false

instance : Element Comparison where
  format := "=b"
  width := 1
  code := Enumeration.code
  ofCode := constantOfCode true

instance : Element NodeKind where
  format := "=b"
  width := 1
  code := Enumeration.code
  ofCode := constantOfCode true

def textBytes (text : String) : List UInt8 := text.toUTF8.data.toList

/-- The text that bytes stand for, if they are well-formed UTF-8. -/
def textOfBytes (bytes : List UInt8) : Except FormatFault String :=
  match String.fromUTF8? ⟨bytes.toArray⟩ with
  | some text => .ok text
  | none => .error .invalidText

end Arboretum

import Arboretum.Edit
import Arboretum.Encoding.Field
import Arboretum.Encoding.Source

/-!
The byte stream. A value is written as its bytes; a column or a text is written behind the number
of its elements as an 8-byte word. An unknown optional field is its name, the size of an element,
the number of elements, and that many bytes.
-/

namespace Arboretum

def countBytes (count : Nat) : List UInt8 := LittleEndian.bytes 8 count

namespace Field

def bytes : Field → List UInt8
  | scalar value => Element.encode value
  | column values => countBytes values.size ++ Element.encodeAll values
  | text value => countBytes (textBytes value).length ++ textBytes value

end Field

/-- Something that takes bytes, piece by piece. Of a piece that it refuses it may have taken a
part. -/
class ByteSink (σ : Type) where
  write : List UInt8 → Edit σ Unit
  flush : Edit σ Unit

structure ByteBuffer where
  bytes : Array UInt8
  deriving DecidableEq, Repr

instance : ByteSink ByteBuffer where
  write bytes := modify fun buffer => ⟨buffer.bytes ++ bytes⟩
  flush := return ()

/-- Write a field: a value or a column as one piece, a text behind its length. -/
def Field.writeTo {σ : Type} [ByteSink σ] : Field → Edit σ Unit
  | scalar value => ByteSink.write (Element.encode value)
  | column values => ByteSink.write (countBytes values.size ++ Element.encodeAll values)
  | text value => do
    ByteSink.write (countBytes (textBytes value).length)
    ByteSink.write (textBytes value)

/-- Bytes that are still to be read. -/
structure ByteSource where
  rest : List UInt8

namespace ByteSource

/-- The next bytes, or a failure to read the named field if there are fewer. -/
def take (count : Nat) (name : String) : StateT ByteSource Result (List UInt8) := fun source =>
  let bytes := source.rest.take count
  if bytes.length = count then .ok (bytes, ⟨source.rest.drop count⟩)
  else .error (.format (.unexpectedEnd (.field name)))

/-- The number of elements that is written in front of a field. -/
def count (name : String) : StateT ByteSource Result Nat := do
  return LittleEndian.number (← take 8 name)

def decode {α : Type} (result : Except FormatFault α) : StateT ByteSource Result α :=
  match result with
  | .ok value => return value
  | .error fault => throw (.format fault)

section

variable {α : Type} [Element α]

def scalar (name : String) : StateT ByteSource Result α := do
  let bytes ← take (Element.width α) name
  decode (Element.decode bytes)

def column (name : String) : StateT ByteSource Result (Array α) := do
  let items ← count name
  if UInt64.size ≤ items * Element.width α then throw (.format (.arrayLength name items))
  let bytes ← take (items * Element.width α) name
  decode (Element.decodeAll bytes)

end

def text (name : String) : StateT ByteSource Result String := do
  let bytes ← take (← count name) name
  decode (textOfBytes bytes)

def skip : StateT ByteSource Result Unit := do
  let name ← text "optional field name"
  let size ← count "optional field element size"
  let items ← count "optional field element count"
  if UInt64.size ≤ size * items then throw (.format (.optionalFieldSize name))
  let _ ← take (size * items) "optional field payload"

instance : FieldSource ByteSource := ⟨scalar, column, text, skip⟩

end ByteSource

namespace Model

def toBytes (model : Model) : List UInt8 := model.refreshed.fields.flatMap Field.bytes

/-- Write the model to a sink, of the current version. -/
def writeTo {σ : Type} [ByteSink σ] (model : Model) : Edit σ Unit := do
  model.refreshed.fields.forM Field.writeTo
  ByteSink.flush

/-- The model at the head of a byte stream, and the bytes behind it. -/
def ofBytes (bytes : List UInt8) : Result (Model × List UInt8) :=
  (FieldSource.model.run (⟨bytes⟩ : ByteSource)).map fun (model, source) => (model, source.rest)

end Model

end Arboretum

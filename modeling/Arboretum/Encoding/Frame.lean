import Arboretum.Encoding.Field
import Arboretum.Encoding.Memory
import Arboretum.Encoding.Source

/-!
Buffer frames: every field as the memory that it lies in, with the format code, size and number of
its items. An unknown optional field is two frames, its name and its payload.
-/

namespace Arboretum

structure Frame where
  data : List UInt8
  format : String
  itemSize : Nat
  items : Nat
  deriving DecidableEq, Repr

def textFormat : String := "=c"

namespace Field

/-- The frame over the memory of the field. -/
def frame : Field → Frame
  | @scalar α _ value => ⟨Element.memory #[value], Element.format α, Element.width α, 1⟩
  | @column α _ values => ⟨Element.memory values, Element.format α, Element.width α, values.size⟩
  | text value => ⟨textBytes value, textFormat, 1, (textBytes value).length⟩

end Field

/-- Frames that are still to be read, and the index of the first of them. -/
structure FrameSource where
  index : Nat
  rest : List Frame

namespace FrameSource

/-- The next frame and its index. Its buffer has to be as long as its items. -/
def next (name : String) : StateT FrameSource Result (Nat × Frame) := fun source =>
  match source.rest with
  | [] => .error (.format (.unexpectedEnd (.frame name)))
  | frame :: rest =>
    if frame.itemSize * frame.items = frame.data.length then
      .ok ((source.index, frame), ⟨source.index + 1, rest⟩)
    else .error (.format (.unexpectedEnd (.frameData source.index name)))

/-- The next frame, which has to be of the given format. -/
def nextOf (name format : String) (itemSize : Nat) : StateT FrameSource Result (Nat × Frame) := do
  let (index, frame) ← next name
  if frame.format = format ∧ frame.itemSize = itemSize then return (index, frame)
  else throw (.format (.frameType index frame.format frame.itemSize format itemSize))

def decode {α : Type} (result : Except FormatFault α) : StateT FrameSource Result α :=
  match result with
  | .ok value => return value
  | .error fault => throw (.format fault)

section

variable {α : Type} [Element α]

def scalar (name : String) : StateT FrameSource Result α := do
  let (index, frame) ← nextOf name (Element.format α) (Element.width α)
  if frame.items ≠ 1 then throw (.format (.scalarFrameLength index frame.items))
  decode (Element.valueAt frame.data.toArray 0)

def column (name : String) : StateT FrameSource Result (Array α) := do
  let (_, frame) ← nextOf name (Element.format α) (Element.width α)
  decode (Element.view frame.data)

end

def text (name : String) : StateT FrameSource Result String := do
  let (_, frame) ← nextOf name textFormat 1
  decode (textOfBytes frame.data)

def skip : StateT FrameSource Result Unit := do
  let _ ← text "optional field name"
  let _ ← next "optional field payload"

instance : FieldSource FrameSource := ⟨scalar, column, text, skip⟩

end FrameSource

namespace Model

def toFrames (model : Model) : List Frame := model.refreshed.fields.map Field.frame

def ofFrames (frames : List Frame) : Result Model :=
  (FieldSource.model.run (⟨0, frames⟩ : FrameSource)).map (·.1)

end Model

end Arboretum

import Arboretum.Encoding.Frame
import Arboretum.Proofs.Encoding.Memory
import Arboretum.Proofs.Encoding.RoundTrip

/-!
Buffer frames are read back too. A frame over the memory of a field has the length that its items
ask for and gives the field back, so a list of frames is a faithful source.
-/

namespace Arboretum

open FieldSource

namespace Element

variable {α : Type} [Element α]

private theorem length_memory (values : Array α) :
    (memory values).length = values.size * width α := by
  rw [memory_eq_encodeAll, length_encodeAll]

theorem memory_singleton (value : α) : memory #[value] = encode value := by
  rw [memory_eq_encodeAll, encodeAll]
  exact List.flatMap_singleton ..

variable [LawfulElement α]

private theorem view_memory (values : Array α) : view (memory values) = .ok values := by
  rw [view_eq_decodeAll, memory_eq_encodeAll, decodeAll_encodeAll]

private theorem valueAt_memory (value : α) : valueAt (memory #[value]).toArray 0 = .ok value := by
  rw [valueAt_eq_decode, Nat.zero_mul, List.drop_zero, memory_singleton,
    List.take_of_length_le (Nat.le_of_eq (length_encode value)), decode_encode]

end Element

namespace FrameSource

theorem next_frame (name : String) {frame : Frame} {source rest : FrameSource}
    (hitems : frame.itemSize * frame.items = frame.data.length)
    (h : source.rest = frame :: rest.rest) (hindex : rest.index = source.index + 1) :
    (next name).run source = .ok ((source.index, frame), rest) := by
  obtain ⟨index, frames⟩ := rest
  unfold next
  simp only [StateT.run, h, if_pos hitems]
  rw [← hindex]

private theorem nextOf_frame (name format : String) {itemSize : Nat} {source rest : FrameSource}
    {data : List UInt8} {items : Nat} (hitems : itemSize * items = data.length)
    (h : source.rest = ⟨data, format, itemSize, items⟩ :: rest.rest)
    (hindex : rest.index = source.index + 1) :
    (nextOf name format itemSize).run source =
      .ok ((source.index, ⟨data, format, itemSize, items⟩), rest) := by
  unfold nextOf
  rw [StateT.run_bind, next_frame name hitems h hindex, ok_bind]
  dsimp only
  rw [if_pos ⟨rfl, rfl⟩]
  rfl

instance : FaithfulSource FrameSource where
  Starts field source rest :=
    source.rest = field.frame :: rest.rest ∧ rest.index = source.index + 1
  scalar := by
    rintro α _ _ value source rest name ⟨h, hindex⟩
    change (scalar name).run source = _
    unfold scalar
    have hitems : Element.width α * 1 = (Element.memory #[value]).length := by
      rw [Element.length_memory, Nat.mul_comm]
      rfl
    rw [StateT.run_bind, nextOf_frame name _ hitems h hindex, ok_bind]
    dsimp only
    rw [if_neg (not_not_intro rfl), Element.valueAt_memory]
    rfl
  column := by
    rintro α _ _ values source rest name ⟨h, hindex⟩
    change (column name).run source = _
    unfold column
    rw [StateT.run_bind, nextOf_frame name _ (by rw [Nat.mul_comm, Element.length_memory]) h hindex,
      ok_bind]
    dsimp only
    rw [Element.view_memory]
    rfl
  text := by
    rintro value source rest name ⟨h, hindex⟩
    change (text name).run source = _
    unfold text
    rw [StateT.run_bind, nextOf_frame name _ (Nat.one_mul _) h hindex, ok_bind]
    dsimp only
    rw [textOfBytes_textBytes]
    rfl

theorem holds_frames (fields : List Field) (index : Nat) (rest : List Frame) :
    Holds fields (⟨index, fields.map Field.frame ++ rest⟩ : FrameSource)
      ⟨index + fields.length, rest⟩ := by
  induction fields generalizing index with
  | nil => rfl
  | cons field fields ih =>
    refine ⟨⟨index + 1, fields.map Field.frame ++ rest⟩, ⟨rfl, rfl⟩, ?_⟩
    rw [List.length_cons, Nat.add_comm fields.length, ← Nat.add_assoc]
    exact ih (index + 1)

end FrameSource

namespace Model

/-- The frames of a model give it back like its bytes do. They can be counted without words. -/
theorem ofFrames_toFrames {model : Model} (h : model.numTree < UInt64.size) (rest : List Frame) :
    ofFrames (model.toFrames ++ rest) =
      (model.trees.toList.forM Tree.validate).map fun _ => model.refreshed := by
  have hread := refreshed_yields (σ := FrameSource) h _ _
    (FrameSource.holds_frames model.refreshed.fields 0 rest)
  unfold ofFrames toFrames
  rw [hread]
  cases model.trees.toList.forM Tree.validate <;> rfl

end Model

end Arboretum

import Arboretum.Model.Dump
import Arboretum.Proofs.Edit
import Arboretum.Proofs.Encoding.Frames

/-!
The two encodings carry the same content. A byte stream is the frames of a model one after another,
each column and each text behind its count, and a sink that keeps what it takes ends up with these
bytes; frames and bytes give back the same model, which is dumped like the one that was written.
-/

namespace Arboretum

section Sinks

/-- A sink that keeps the pieces it takes in order. -/
class LawfulSink (σ : Type) [ByteSink σ] where
  contents : σ → List UInt8
  write {bytes : List UInt8} {sink after : σ} :
    (ByteSink.write bytes).apply sink = (.ok (), after) → contents after = contents sink ++ bytes
  flush {sink after : σ} :
    (ByteSink.flush : Edit σ Unit).apply sink = (.ok (), after) → contents after = contents sink

instance : LawfulSink ByteBuffer where
  contents buffer := buffer.bytes.toList
  write h := by
    cases h
    exact Array.toList_appendList
  flush h := by
    cases h
    rfl

/-- A sink that takes every piece. -/
structure Reliable (σ : Type) [ByteSink σ] : Prop where
  write (bytes : List UInt8) (sink : σ) :
    ∃ after, (ByteSink.write bytes).apply sink = (.ok (), after)
  flush (sink : σ) : ∃ after, (ByteSink.flush : Edit σ Unit).apply sink = (.ok (), after)

private theorem reliable_byteBuffer : Reliable ByteBuffer :=
  ⟨fun _ _ => ⟨_, rfl⟩, fun _ => ⟨_, rfl⟩⟩

variable {σ : Type} [ByteSink σ] [LawfulSink σ]

/-- An edit of a sink that writes the bytes, unless the sink refuses a piece. -/
structure Emits (edit : Edit σ Unit) (bytes : List UInt8) : Prop where
  contents {sink after : σ} : edit.apply sink = (.ok (), after) →
    LawfulSink.contents after = LawfulSink.contents sink ++ bytes
  goesThrough : Reliable σ → ∀ sink, ∃ after, edit.apply sink = (.ok (), after)

namespace Emits

theorem write (bytes : List UInt8) : Emits (ByteSink.write bytes : Edit σ Unit) bytes :=
  ⟨LawfulSink.write, fun hreliable => hreliable.write bytes⟩

theorem flush : Emits (ByteSink.flush : Edit σ Unit) [] :=
  ⟨fun h => by rw [List.append_nil, LawfulSink.flush h], fun hreliable => hreliable.flush⟩

theorem append {first second : Edit σ Unit} {bytes more : List UInt8} (hfirst : Emits first bytes)
    (hsecond : Emits second more) : Emits (first >>= fun _ => second) (bytes ++ more) := by
  constructor
  · intro sink after h
    obtain ⟨_, middle, hok, hrest⟩ := Edit.apply_bind_eq_ok.mp h
    rw [hsecond.contents hrest, hfirst.contents hok, List.append_assoc]
  · intro hreliable sink
    obtain ⟨middle, hok⟩ := hfirst.goesThrough hreliable sink
    obtain ⟨after, hrest⟩ := hsecond.goesThrough hreliable middle
    exact ⟨after, Edit.apply_bind_eq_ok.mpr ⟨(), middle, hok, hrest⟩⟩

theorem field (field : Field) : Emits (field.writeTo : Edit σ Unit) field.bytes := by
  cases field with
  | scalar value => exact write _
  | column values => exact write _
  | text value => exact (write _).append (write _)

theorem fields (fields : List Field) :
    Emits (fields.forM Field.writeTo : Edit σ Unit) (fields.flatMap Field.bytes) := by
  induction fields with
  | nil =>
    refine ⟨?_, fun _ sink => ⟨sink, rfl⟩⟩
    intro sink after h
    cases h
    exact (List.append_nil _).symm
  | cons first rest ih => exact (field first).append ih

theorem model (model : Model) : Emits (model.writeTo : Edit σ Unit) model.toBytes := by
  have h := (fields (σ := σ) model.refreshed.fields).append flush
  rwa [List.append_nil] at h

end Emits

end Sinks

namespace Field

/-- The frame of a field in a byte stream: a value as it is, a column or a text behind its count. -/
def streamed (field : Field) (frame : Frame) : List UInt8 :=
  match field with
  | scalar _ => frame.data
  | column _ | text _ => countBytes frame.items ++ frame.data

theorem streamed_frame (field : Field) : field.streamed field.frame = field.bytes := by
  cases field with
  | scalar value => exact Element.memory_singleton value
  | column values =>
    show countBytes values.size ++ Element.memory values = _
    rw [Element.memory_eq_encodeAll]
    rfl
  | text value => rfl

end Field

namespace Model

theorem toBytes_eq_streamed (model : Model) :
    model.toBytes =
      (List.zipWith Field.streamed model.refreshed.fields model.toFrames).flatten := by
  rw [toFrames, List.zipWith_map_right, List.zipWith_self, ← List.flatMap_def, toBytes]
  exact List.flatMap_congr fun field _ => field.streamed_frame.symm

/-- A dump does not show the version of the data nor what was skipped. -/
theorem dump_refreshed (model : Model) (pretty : Bool) :
    model.refreshed.dump pretty = model.dump pretty := by
  have htrees : model.refreshed.trees.toList.map Tree.toJson =
      model.trees.toList.map Tree.toJson := by
    calc model.refreshed.trees.toList.map Tree.toJson
        = (model.trees.toList.map Tree.stored).map Tree.toJson :=
          congrArg (List.map Tree.toJson) model.refreshed_trees
      _ = model.trees.toList.map Tree.toJson := List.map_map
  have hjson : model.refreshed.toJson = model.toJson := by
    rw [toJson, htrees]
    rfl
  rw [dump, dump, hjson]

/-- Bytes and frames of a model carry the same content. The byte stream is the data of the frames in
their order, a value as it is and a column or a text behind the number of its items, whether the
trees pass their check or not. A sink takes these bytes, unless it refuses a piece. If the trees
pass their check, both encodings give back one and the same model, which is dumped like the model
that was written. -/
theorem encodings_agree (model : Model) :
    model.toFrames.length = model.refreshed.fields.length ∧
    model.toBytes =
      (List.zipWith Field.streamed model.refreshed.fields model.toFrames).flatten ∧
    (∀ {σ : Type} [ByteSink σ] [LawfulSink σ] (sink : σ),
      (∀ after, (model.writeTo : Edit σ Unit).apply sink = (.ok (), after) →
        LawfulSink.contents after = LawfulSink.contents sink ++ model.toBytes) ∧
      (Reliable σ → ∃ after, (model.writeTo : Edit σ Unit).apply sink = (.ok (), after))) ∧
    (model.writeTo : Edit ByteBuffer Unit).apply ⟨#[]⟩ = (.ok (), ⟨model.toBytes.toArray⟩) ∧
    (model.Addressable → (∀ tree ∈ model.trees, tree.validate = .ok ()) →
      ofFrames model.toFrames = .ok model.refreshed ∧
      ofBytes model.toBytes = .ok (model.refreshed, []) ∧
      ∀ pretty, model.refreshed.dump pretty = model.dump pretty) := by
  refine ⟨List.length_map .., model.toBytes_eq_streamed, ?_, ?_, ?_⟩
  · intro σ _ _ sink
    exact ⟨fun after h => (Emits.model model).contents h,
      fun hreliable => (Emits.model model).goesThrough hreliable sink⟩
  · obtain ⟨after, hok⟩ := (Emits.model model).goesThrough reliable_byteBuffer ⟨#[]⟩
    have hbytes : after.bytes.toList = model.toBytes := (Emits.model model).contents hok
    rw [hok, ← hbytes]
  · intro hfits hvalid
    have hchecked := Tree.forM_validate_eq_ok.mpr hvalid
    have hframes := ofFrames_toFrames hfits.numTree []
    have hbytes := ofBytes_toBytes_ok hfits hvalid []
    rw [List.append_nil] at hframes hbytes
    refine ⟨?_, hbytes, model.dump_refreshed⟩
    rw [hframes, hchecked]
    rfl

theorem encodings_agree_memento :
    (∃ after, (memento.writeTo : Edit ByteBuffer Unit).apply ⟨#[7]⟩ = (.ok (), after) ∧
      after.bytes.toList = 7 :: memento.toBytes) ∧
    ofFrames memento.toFrames = .ok memento.refreshed ∧
    ofBytes memento.toBytes = .ok (memento.refreshed, []) ∧
    memento.refreshed.dump true = memento.dump true := by
  obtain ⟨-, -, hsink, -, hread⟩ := encodings_agree memento
  obtain ⟨hcontents, hthrough⟩ := hsink (⟨#[7]⟩ : ByteBuffer)
  obtain ⟨hframes, hbytes, hdump⟩ := hread memento_addressable memento_valid
  obtain ⟨after, hok⟩ := hthrough reliable_byteBuffer
  exact ⟨⟨after, hok, hcontents after hok⟩, hframes, hbytes, hdump true⟩

end Model

end Arboretum

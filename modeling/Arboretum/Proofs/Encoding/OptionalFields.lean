import Arboretum.Proofs.Encoding.Equivalence

/-!
Optional fields that this version does not know. A later version may store them behind the header
of a model, in every tree and for the nodes of every tree, each list behind its counter. The reader
passes over them in both encodings, keeps nothing of them but the counters, and these are zero again
when the model is written.
-/

namespace Arboretum

open FieldSource

/-- An unknown field: a name, and as many elements of one size as fill its payload. -/
structure OptionalField where
  name : String
  size : UInt64
  elements : UInt64
  payload : List UInt8
  /-- The format code of the payload as a frame. -/
  format : String
  name_addressable : (Field.text name).Addressable
  payload_length : payload.length = size.toNat * elements.toNat
  payload_addressable : payload.length < UInt64.size

namespace OptionalField

/-- The field in a byte stream: its name, the size and the number of its elements, its payload. -/
def bytes (field : OptionalField) : List UInt8 :=
  Field.bytes (.text field.name) ++ (countBytes field.size.toNat ++
    (countBytes field.elements.toNat ++ field.payload))

/-- The field as frames: one over its name, and one over its payload. -/
def frames (field : OptionalField) : List Frame :=
  [Field.frame (.text field.name),
    ⟨field.payload, field.format, field.size.toNat, field.elements.toNat⟩]

end OptionalField

/-- Unknown fields, as many as a counter can announce. -/
structure OptionalFields where
  fields : List OptionalField
  countable : fields.length < 2 ^ 31

namespace OptionalFields

def count (extra : OptionalFields) : Int32 := .ofNat extra.fields.length

def none : OptionalFields := ⟨[], Nat.two_pow_pos 31⟩

private theorem toInt_count (extra : OptionalFields) : extra.count.toInt = extra.fields.length :=
  Int32.toInt_ofNat_of_lt extra.countable

end OptionalFields

/-- Unknown fields for every slot of a model: behind its header, and two slots in every tree. -/
structure Extension where
  model : OptionalFields
  tree : Nat → OptionalFields
  node : Nat → OptionalFields

def Extension.none : Extension :=
  ⟨.none, fun _ => .none, fun _ => .none⟩

/-- A part of a stored model: a field that the reader knows, or one that it does not. -/
inductive Segment where
  | known (field : Field)
  | unknown (field : OptionalField)

namespace Segment

def bytes : Segment → List UInt8
  | known field => field.bytes
  | unknown field => field.bytes

def frames : Segment → List Frame
  | known field => [field.frame]
  | unknown field => field.frames

def Addressable : Segment → Prop
  | known field => field.Addressable
  | unknown _ => True

end Segment

namespace Tree

variable {T L : Type}

/-- The tree with the counters of the unknown fields that it is stored with. -/
def announcing (tree : Tree T L) (forTree forNode : OptionalFields) : Tree T L :=
  { tree with treeOptionalFields := forTree.count, nodeOptionalFields := forNode.count }

/-- The tree as it is stored with unknown fields, each list of them behind its counter. -/
def segments [Element T] [Element L] (tree : Tree T L) (forTree forNode : OptionalFields) :
    List Segment :=
  let announcing := tree.announcing forTree forNode
  announcing.ownFields.map .known ++ (forTree.fields.map .unknown ++
    (announcing.nodeFields.map .known ++ forNode.fields.map .unknown))

private theorem segments_none [Element T] [Element L] (tree : Tree T L) :
    tree.segments .none .none = tree.stored.fields.map .known := by
  rw [fields_eq, List.map_append, segments]
  exact congrArg _ (List.append_nil _)

end Tree

namespace Model

/-- The model with the counters of the unknown fields that it is stored with. -/
def announcing (model : Model) (extension : Extension) : Model :=
  { model with
    trees := model.trees.mapIdx fun i tree =>
      tree.announcing (extension.tree i) (extension.node i)
    version := .current
    optionalFields := extension.model.count }

/-- The model as it is stored with unknown fields. -/
def segments (model : Model) (extension : Extension) : List Segment :=
  (model.announcing extension).headerFields.map .known ++ (extension.model.fields.map .unknown ++
    model.trees.toList.zipIdx.flatMap fun (tree, i) =>
      tree.segments (extension.tree i) (extension.node i))

def toBytesWith (model : Model) (extension : Extension) : List UInt8 :=
  (model.segments extension).flatMap Segment.bytes

def toFramesWith (model : Model) (extension : Extension) : List Frame :=
  (model.segments extension).flatMap Segment.frames

private theorem segments_none (model : Model) :
    model.segments .none = model.refreshed.fields.map .known := by
  have hheader : (model.announcing .none).headerFields = model.refreshed.headerFields := by
    simp only [headerFields, numTree, announcing, refreshed, Array.size_mapIdx, Array.size_map]
    rfl
  have htrees : (model.trees.toList.zipIdx.flatMap fun (tree, i) =>
        tree.segments (Extension.none.tree i) (Extension.none.node i)) =
      (model.refreshed.trees.toList.flatMap Tree.fields).map .known := by
    calc (model.trees.toList.zipIdx.flatMap fun (tree, i) =>
          tree.segments (Extension.none.tree i) (Extension.none.node i))
        = model.trees.toList.zipIdx.flatMap fun entry => entry.1.stored.fields.map .known :=
          List.flatMap_congr fun entry _ => Tree.segments_none entry.1
      _ = (model.trees.toList.zipIdx.map Prod.fst).flatMap fun tree =>
            tree.stored.fields.map .known := by rw [List.flatMap_map]
      _ = model.trees.toList.flatMap fun tree => tree.stored.fields.map .known := by
          rw [List.zipIdx_map_fst]
      _ = ((model.trees.toList.map Tree.stored).flatMap Tree.fields).map .known := by
          rw [List.flatMap_map, List.map_flatMap]
      _ = (model.refreshed.trees.toList.flatMap Tree.fields).map .known :=
          congrArg (fun trees : List (Tree model.pairing.Threshold model.pairing.Leaf) =>
            (trees.flatMap Tree.fields).map Segment.known) model.refreshed_trees.symm
  rw [segments, hheader, htrees, fields, List.map_append]
  rfl

theorem toBytesWith_none (model : Model) : model.toBytesWith .none = model.toBytes := by
  rw [toBytesWith, segments_none, List.flatMap_map]
  rfl

theorem toFramesWith_none (model : Model) : model.toFramesWith .none = model.toFrames := by
  rw [toFramesWith, segments_none, List.flatMap_map]
  exact List.map_eq_flatMap.symm

end Model

/-- A source of fields that passes over the unknown ones it starts with. -/
class SkippingSource (σ : Type) [FieldSource σ] where
  /-- The source starts with the unknown field and goes on with the other source. -/
  StartsUnknown : OptionalField → σ → σ → Prop
  skip {field : OptionalField} {source rest : σ} :
    StartsUnknown field source rest → FieldSource.skip.run source = .ok ((), rest)

namespace FieldSource

variable {σ : Type} [FieldSource σ] [FaithfulSource σ] [SkippingSource σ]

/-- The source starts with the segments, one after another. -/
def HoldsSegments : List Segment → σ → σ → Prop
  | [], source, rest => source = rest
  | .known field :: segments, source, rest =>
    ∃ next, FaithfulSource.Starts field source next ∧ HoldsSegments segments next rest
  | .unknown field :: segments, source, rest =>
    ∃ next, SkippingSource.StartsUnknown field source next ∧ HoldsSegments segments next rest

private theorem holds_of_known {fields : List Field} {segments : List Segment} {source rest : σ}
    (h : HoldsSegments (fields.map .known ++ segments) source rest) :
    ∃ middle, Holds fields source middle ∧ HoldsSegments segments middle rest := by
  induction fields generalizing source with
  | nil => exact ⟨source, rfl, h⟩
  | cons field fields ih =>
    obtain ⟨next, hfield, h⟩ := h
    obtain ⟨middle, hfields, hsegments⟩ := ih h
    exact ⟨middle, ⟨next, hfield, hfields⟩, hsegments⟩

private theorem skipMany_of_unknown {fields : List OptionalField} {segments : List Segment}
    {source rest : σ} (h : HoldsSegments (fields.map .unknown ++ segments) source rest) :
    ∃ middle, (skipMany fields.length).run source = .ok ((), middle) ∧
      HoldsSegments segments middle rest := by
  induction fields generalizing source with
  | nil => exact ⟨source, rfl, h⟩
  | cons field fields ih =>
    obtain ⟨next, hfield, h⟩ := h
    obtain ⟨middle, hskipped, hsegments⟩ := ih h
    refine ⟨middle, ?_, hsegments⟩
    rw [List.length_cons, skipMany, StateT.run_bind, SkippingSource.skip hfield, ok_bind, hskipped]

private theorem behind_of_unknown {extra : OptionalFields} {segments : List Segment}
    {source rest : σ} (h : HoldsSegments (extra.fields.map .unknown ++ segments) source rest) :
    Behind extra.count (HoldsSegments segments) source rest := by
  obtain ⟨middle, hskipped, hsegments⟩ := skipMany_of_unknown h
  refine ⟨?_, middle, ?_, hsegments⟩
  · rw [Int32.le_iff_toInt_le, extra.toInt_count, Int32.toInt_zero]
    exact Int.natCast_nonneg _
  · rw [extra.toInt_count, Int.toNat_natCast]
    exact hskipped

section

variable {T L : Type} [Element T] [Element L]

theorem treeExtent_of_segments {tree : Tree T L} {forTree forNode : OptionalFields}
    {segments : List Segment} {source rest : σ}
    (h : HoldsSegments (tree.segments forTree forNode ++ segments) source rest) :
    ∃ middle, TreeExtent (tree.announcing forTree forNode) source middle ∧
      HoldsSegments segments middle rest := by
  simp only [Tree.segments, List.append_assoc] at h
  obtain ⟨first, hown, h⟩ := holds_of_known h
  obtain ⟨hcount, second, hskipped, h⟩ := behind_of_unknown h
  obtain ⟨third, hnodes, h⟩ := holds_of_known h
  obtain ⟨hcount', middle, hskipped', h⟩ := behind_of_unknown h
  exact ⟨middle, ⟨first, hown, hcount, second, hskipped, third, hnodes, hcount', middle, hskipped',
    rfl⟩, h⟩

private theorem treesExtent_of_segments {trees : List (Tree T L × Nat)} {extension : Extension}
    {source rest : σ}
    (h : HoldsSegments (trees.flatMap fun (tree, i) =>
      tree.segments (extension.tree i) (extension.node i)) source rest) :
    TreesExtent (trees.map fun (tree, i) =>
      tree.announcing (extension.tree i) (extension.node i)) source rest := by
  induction trees generalizing source with
  | nil => exact h
  | cons entry trees ih =>
    rw [List.flatMap_cons] at h
    obtain ⟨middle, htree, h⟩ := treeExtent_of_segments h
    exact ⟨middle, htree, ih h⟩

end

end FieldSource

namespace Tree

variable {T L : Type}

private theorem announcing_validate (tree : Tree T L) (forTree forNode : OptionalFields) :
    (tree.announcing forTree forNode).validate = tree.validate := by
  rw [← stored_validate, ← stored_validate tree]
  rfl

private theorem announcing_addressable [Element T] [Element L] {tree : Tree T L}
    (h : ∀ field ∈ tree.fields, field.Addressable) (forTree forNode : OptionalFields) :
    ∀ segment ∈ tree.segments forTree forNode, segment.Addressable := by
  have hfields : ∀ field ∈ (tree.announcing forTree forNode).fields, field.Addressable := by
    simpa [Tree.fields, Field.Addressable, announcing] using h
  rw [fields_eq, List.forall_mem_append] at hfields
  simp only [segments, List.forall_mem_append, List.forall_mem_map]
  exact ⟨hfields.1, fun _ _ => trivial, hfields.2, fun _ _ => trivial⟩

end Tree

namespace Model

private theorem announcing_trees (model : Model) (extension : Extension) :
    (model.announcing extension).trees.toList = model.trees.toList.zipIdx.map fun (tree, i) =>
      tree.announcing (extension.tree i) (extension.node i) :=
  Array.toList_mapIdx.trans List.mapIdx_eq_zipIdx_map

theorem announcing_refreshed (model : Model) (extension : Extension) :
    (model.announcing extension).refreshed = model.refreshed := by
  have htrees : (model.announcing extension).trees.map Tree.stored =
      model.trees.map Tree.stored := by
    apply Array.toList_inj.mp
    rw [Array.toList_map, announcing_trees, Array.toList_map, List.map_map]
    calc model.trees.toList.zipIdx.map (Tree.stored ∘ fun (tree, i) =>
          tree.announcing (extension.tree i) (extension.node i))
        = model.trees.toList.zipIdx.map (Tree.stored ∘ Prod.fst) := rfl
      _ = (model.trees.toList.zipIdx.map Prod.fst).map Tree.stored := List.map_map.symm
      _ = model.trees.toList.map Tree.stored := by rw [List.zipIdx_map_fst]
  exact congrArg (fun trees => (⟨model.pairing, trees, model.info, .current, 0⟩ : Model)) htrees

private theorem announcing_checked {model : Model}
    (hvalid : ∀ tree ∈ model.trees, tree.validate = .ok ()) (extension : Extension) :
    (model.announcing extension).trees.toList.forM Tree.validate = .ok () := by
  rw [announcing_trees, forM_eq_ok, List.forall_mem_map]
  rintro ⟨tree, i⟩ htree
  exact (tree.announcing_validate _ _).trans
    (hvalid tree (Array.mem_toList_iff.mp (List.fst_mem_of_mem_zipIdx htree)))

private theorem segments_addressable {model : Model} (h : model.Addressable)
    (extension : Extension) :
    ∀ segment ∈ model.segments extension, segment.Addressable := by
  have hfields := h.fields
  unfold fields at hfields
  rw [List.forall_mem_append] at hfields
  simp only [segments, List.forall_mem_append, List.forall_mem_map]
  refine ⟨?_, fun _ _ => trivial, ?_⟩
  · simpa [headerFields, Field.Addressable, Segment.Addressable, announcing] using hfields.1
  · intro segment hsegment
    obtain ⟨⟨tree, i⟩, htree, hsegment⟩ := List.mem_flatMap.mp hsegment
    refine Tree.announcing_addressable (fun field hfield => ?_) _ _ segment hsegment
    exact hfields.2 field (List.mem_flatMap.mpr ⟨tree, List.fst_mem_of_mem_zipIdx htree, hfield⟩)

/-- A source that starts with a model and unknown fields gives the model back. Only the counters say
that there was something else. -/
theorem announcing_reads {σ : Type} [FieldSource σ] [FaithfulSource σ] [SkippingSource σ]
    {model : Model} (hsize : model.numTree < UInt64.size)
    (hvalid : ∀ tree ∈ model.trees, tree.validate = .ok ()) (extension : Extension)
    {source rest : σ} (h : HoldsSegments (model.segments extension) source rest) :
    FieldSource.model.run source = .ok (model.announcing extension, rest) := by
  obtain ⟨first, hheader, h⟩ := holds_of_known h
  obtain ⟨hcount, second, hskipped, h⟩ := behind_of_unknown h
  have htrees : TreesExtent (model.announcing extension).trees.toList second rest := by
    rw [announcing_trees]
    exact treesExtent_of_segments h
  have hsize : (model.announcing extension).numTree < UInt64.size := by
    rwa [numTree, announcing, Array.size_mapIdx]
  have hread := model_reads rfl hsize source rest
    ⟨first, hheader, hcount, second, hskipped, htrees⟩
  rwa [announcing_checked hvalid extension] at hread

end Model

namespace ByteSource

private theorem skip_append (field : OptionalField) (rest : List UInt8) :
    skip.run ⟨field.bytes ++ rest⟩ = .ok ((), ⟨rest⟩) := by
  have htotal : ¬ UInt64.size ≤ field.size.toNat * field.elements.toNat := by
    rw [← field.payload_length]
    exact Nat.not_le.mpr field.payload_addressable
  unfold skip
  rw [OptionalField.bytes, List.append_assoc, List.append_assoc, List.append_assoc,
    StateT.run_bind, text_append _ _ field.name_addressable, ok_bind,
    StateT.run_bind, count_append _ field.size.toNat_lt_size, ok_bind,
    StateT.run_bind, count_append _ field.elements.toNat_lt_size, ok_bind]
  dsimp only
  rw [if_neg htotal, StateT.run_bind, take_append _ field.payload_length]
  rfl

instance : SkippingSource ByteSource where
  StartsUnknown field source rest := source.rest = field.bytes ++ rest.rest
  skip := by
    intro field source rest h
    obtain ⟨bytes⟩ := source
    cases h
    exact skip_append field rest.rest

theorem holdsSegments_bytes {segments : List Segment}
    (h : ∀ segment ∈ segments, segment.Addressable) (rest : List UInt8) :
    HoldsSegments segments (⟨segments.flatMap Segment.bytes ++ rest⟩ : ByteSource) ⟨rest⟩ := by
  induction segments with
  | nil => rfl
  | cons segment segments ih =>
    have hothers := ih fun other hother => h other (List.mem_cons_of_mem _ hother)
    rw [List.flatMap_cons, List.append_assoc]
    cases segment with
    | known field => exact ⟨_, ⟨h _ List.mem_cons_self, rfl⟩, hothers⟩
    | unknown field => exact ⟨_, rfl, hothers⟩

end ByteSource

namespace FrameSource

instance : SkippingSource FrameSource where
  StartsUnknown field source rest :=
    source.rest = field.frames ++ rest.rest ∧ rest.index = source.index + 2
  skip := by
    rintro field source rest ⟨h, hindex⟩
    have hstarts : FaithfulSource.Starts (.text field.name) source
        (⟨source.index + 1, field.frames.tail ++ rest.rest⟩ : FrameSource) := ⟨h, rfl⟩
    have hname : (text "optional field name").run source = _ := FaithfulSource.text _ hstarts
    change skip.run _ = _
    unfold skip
    rw [StateT.run_bind, hname, ok_bind, StateT.run_bind,
      next_frame _ field.payload_length.symm rfl hindex]
    rfl

theorem holdsSegments_frames (segments : List Segment) (index : Nat) (rest : List Frame) :
    ∃ last, HoldsSegments segments
      (⟨index, segments.flatMap Segment.frames ++ rest⟩ : FrameSource) ⟨last, rest⟩ := by
  induction segments generalizing index with
  | nil => exact ⟨index, rfl⟩
  | cons segment segments ih =>
    rw [List.flatMap_cons, List.append_assoc]
    cases segment with
    | known field =>
      obtain ⟨last, h⟩ := ih (index + 1)
      exact ⟨last, _, ⟨rfl, rfl⟩, h⟩
    | unknown field =>
      obtain ⟨last, h⟩ := ih (index + 2)
      exact ⟨last, _, ⟨rfl, rfl⟩, h⟩

end FrameSource

namespace Model

/-- Fields that this version does not know, at every place where a model can hold them, are passed
over. In both encodings a model is read back that is the written one but for the counters of these
fields, it is dumped like the written one, and it is written again as the bytes of a model without
them. -/
theorem unknown_fields_passed_over (model : Model) (extension : Extension)
    (rest : List UInt8) (more : List Frame) (hfits : model.Addressable)
    (hvalid : ∀ tree ∈ model.trees, tree.validate = .ok ()) :
    ofBytes (model.toBytesWith extension ++ rest) = .ok (model.announcing extension, rest) ∧
    ofFrames (model.toFramesWith extension ++ more) = .ok (model.announcing extension) ∧
    (∀ pretty, (model.announcing extension).dump pretty = model.dump pretty) ∧
    (model.announcing extension).toBytes = model.toBytes ∧
    (model.announcing extension).toFrames = model.toFrames := by
  have hsame := model.announcing_refreshed extension
  refine ⟨?_, ?_, fun pretty => ?_, ?_, ?_⟩
  · have hread := announcing_reads hfits.numTree hvalid extension
      (ByteSource.holdsSegments_bytes (segments_addressable hfits extension) rest)
    unfold ofBytes toBytesWith
    rw [hread]
    rfl
  · obtain ⟨last, hholds⟩ := FrameSource.holdsSegments_frames (model.segments extension) 0 more
    have hread := announcing_reads hfits.numTree hvalid extension hholds
    unfold ofFrames toFramesWith
    rw [hread]
    rfl
  · rw [← dump_refreshed, hsame, dump_refreshed]
  · rw [toBytes, hsame, toBytes]
  · rw [toFrames, hsame, toFrames]

def twoWords : OptionalField where
  name := "words"
  size := 4
  elements := 2
  payload := [1, 0, 0, 0, 2, 0, 0, 0]
  format := "=L"
  name_addressable := by decide +kernel
  payload_length := by decide +kernel
  payload_addressable := by decide +kernel

def wordy : Extension where
  model := ⟨[twoWords], by decide⟩
  tree _ := ⟨[twoWords, twoWords], by decide⟩
  node _ := ⟨[], by decide⟩

theorem unknown_fields_passed_over_memento :
    ofBytes (memento.toBytesWith wordy ++ [7]) = .ok (memento.announcing wordy, [7]) ∧
    ofFrames (memento.toFramesWith wordy ++ []) = .ok (memento.announcing wordy) ∧
    (memento.announcing wordy).dump true = memento.dump true ∧
    (memento.announcing wordy).toBytes = memento.toBytes := by
  obtain ⟨hbytes, hframes, hdump, hagain, -⟩ :=
    unknown_fields_passed_over memento wordy [7] [] memento_addressable memento_valid
  exact ⟨hbytes, hframes, hdump true, hagain⟩

end Model

end Arboretum

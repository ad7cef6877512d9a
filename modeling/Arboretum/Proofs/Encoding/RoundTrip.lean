import Arboretum.Encoding.Stream
import Arboretum.Proofs.Encoding.Sources
import Mathlib.Control.Monad.Basic

/-!
A stored model is read back. A byte stream is a faithful source of the fields that were written to
it, as long as 64 bits count what it holds, and what is read back is the model without what had been
skipped when it was read itself.
-/

namespace Arboretum

open FieldSource

/-- The bytes of the field can be counted by a machine word. -/
def Field.Addressable : Field → Prop
  | @scalar _ _ _ => True
  | @column α _ values => values.size * Element.width α < UInt64.size
  | .text value => (textBytes value).length < UInt64.size

instance : DecidablePred Field.Addressable
  | @Field.scalar _ _ _ => .isTrue trivial
  | @Field.column α _ values =>
    inferInstanceAs (Decidable (values.size * Element.width α < UInt64.size))
  | .text value => inferInstanceAs (Decidable ((textBytes value).length < UInt64.size))

namespace ByteSource

theorem take_append (name : String) {bytes : List UInt8} {count : Nat}
    (h : bytes.length = count) (rest : List UInt8) :
    (take count name).run ⟨bytes ++ rest⟩ = .ok (bytes, ⟨rest⟩) := by
  unfold take
  simp only [StateT.run, List.take_left' h, List.drop_left' h, if_pos h]

theorem count_append (name : String) {n : Nat} (h : n < UInt64.size) (rest : List UInt8) :
    (count name).run ⟨countBytes n ++ rest⟩ = .ok (n, ⟨rest⟩) := by
  have htake := take_append name (LittleEndian.length_bytes 8 n) rest
  unfold count
  rw [StateT.run_bind, countBytes, htake, ok_bind]
  change Except.ok (LittleEndian.number (LittleEndian.bytes 8 n), _) = _
  rw [LittleEndian.number_bytes_of_lt (Nat.lt_of_lt_of_eq h (by decide))]

theorem text_append (name value : String) (h : (textBytes value).length < UInt64.size)
    (rest : List UInt8) :
    (text name).run ⟨Field.bytes (.text value) ++ rest⟩ = .ok (value, ⟨rest⟩) := by
  unfold text
  rw [Field.bytes, List.append_assoc, StateT.run_bind, count_append name h, ok_bind,
    StateT.run_bind, take_append name rfl, ok_bind, textOfBytes_textBytes]
  rfl

variable {α : Type} [Element α] [LawfulElement α]

private theorem scalar_append (name : String) (value : α) (rest : List UInt8) :
    (scalar name).run ⟨Field.bytes (.scalar value) ++ rest⟩ = .ok (value, ⟨rest⟩) := by
  unfold scalar
  rw [Field.bytes, StateT.run_bind, take_append name (Element.length_encode value), ok_bind,
    Element.decode_encode]
  rfl

private theorem column_append (name : String) (values : Array α)
    (h : values.size * Element.width α < UInt64.size) (rest : List UInt8) :
    (column name).run ⟨Field.bytes (.column values) ++ rest⟩ = .ok (values, ⟨rest⟩) := by
  have hsize : values.size < UInt64.size :=
    Nat.lt_of_le_of_lt (Nat.le_mul_of_pos_right _ LawfulElement.width_pos) h
  unfold column
  rw [Field.bytes, List.append_assoc, StateT.run_bind, count_append name hsize, ok_bind]
  dsimp only
  rw [if_neg (Nat.not_le.mpr h), StateT.run_bind,
    take_append name (Element.length_encodeAll values), ok_bind, Element.decodeAll_encodeAll]
  rfl

instance : FaithfulSource ByteSource where
  Starts field source rest := field.Addressable ∧ source.rest = field.bytes ++ rest.rest
  scalar := by
    rintro α _ _ value source rest name ⟨-, h⟩
    obtain ⟨bytes⟩ := source
    cases h
    exact scalar_append name value rest.rest
  column := by
    rintro α _ _ values source rest name ⟨hsize, h⟩
    obtain ⟨bytes⟩ := source
    cases h
    exact column_append name values hsize rest.rest
  text := by
    rintro value source rest name ⟨hsize, h⟩
    obtain ⟨bytes⟩ := source
    cases h
    exact text_append name value hsize rest.rest

theorem holds_bytes {fields : List Field} (h : ∀ field ∈ fields, field.Addressable)
    (rest : List UInt8) :
    Holds fields (⟨fields.flatMap Field.bytes ++ rest⟩ : ByteSource) ⟨rest⟩ := by
  induction fields with
  | nil => rfl
  | cons field fields ih =>
    refine ⟨⟨fields.flatMap Field.bytes ++ rest⟩, ⟨h field List.mem_cons_self, ?_⟩, ?_⟩
    · rw [List.flatMap_cons, List.append_assoc]
    · exact ih fun other hother => h other (List.mem_cons_of_mem _ hother)

end ByteSource

namespace Tree

variable {T L : Type}

def stored (tree : Tree T L) : Tree T L :=
  { tree with treeOptionalFields := 0, nodeOptionalFields := 0 }

private theorem stored_mark (tree : Tree T L) (steps : Nat) (stack : List Nat)
    (visited : Array Bool) :
    tree.stored.mark steps stack visited = tree.mark steps stack visited := by
  induction steps generalizing stack visited with
  | zero => cases stack <;> rfl
  | succ steps ih =>
    cases stack with
    | nil => rfl
    | cons nid stack =>
      rw [mark, mark]
      simp only [ih]
      rfl

/-- The check of a tree does not look at the counters of what was skipped. -/
theorem stored_validate (tree : Tree T L) : tree.stored.validate = tree.validate := by
  unfold validate checkSingleRooted
  simp only [stored_mark]
  rfl

private theorem forM_stored (trees : List (Tree T L)) :
    (trees.map stored).forM validate = trees.forM validate := by
  simp only [List.forM_eq_forM, List.forM_map, stored_validate]

theorem forM_validate_eq_ok {trees : Array (Tree T L)} :
    trees.toList.forM validate = .ok () ↔ ∀ tree ∈ trees, tree.validate = .ok () := by
  simp only [forM_eq_ok, Array.mem_toList_iff]

private theorem stored_addressable [Element T] [Element L] {tree : Tree T L}
    (h : ∀ field ∈ tree.fields, field.Addressable) :
    ∀ field ∈ tree.stored.fields, field.Addressable := by
  simpa [Tree.fields, Field.Addressable, stored] using h

end Tree

namespace Model

/-- What a machine can hold: 64 bits count the trees and the bytes of every field. -/
structure Addressable (model : Model) : Prop where
  numTree : model.numTree < UInt64.size
  fields : ∀ field ∈ model.fields, field.Addressable

theorem refreshed_trees (model : Model) :
    model.refreshed.trees.toList = model.trees.toList.map Tree.stored :=
  Array.toList_map

theorem refreshed_addressable {model : Model} (h : model.Addressable) :
    ∀ field ∈ model.refreshed.fields, field.Addressable := by
  have hfields := h.fields
  unfold fields at hfields ⊢
  rw [List.forall_mem_append] at hfields ⊢
  constructor
  · simpa [headerFields, Field.Addressable, refreshed] using hfields.1
  · intro field hfield
    obtain ⟨tree, htree, hfield⟩ := List.mem_flatMap.mp hfield
    rw [refreshed_trees] at htree
    obtain ⟨original, horiginal, rfl⟩ := List.mem_map.mp htree
    refine Tree.stored_addressable (fun field hfield => ?_) field hfield
    exact hfields.2 field (List.mem_flatMap.mpr ⟨original, horiginal, hfield⟩)

theorem refreshed_yields {σ : Type} [FieldSource σ] [FaithfulSource σ] {model : Model}
    (h : model.numTree < UInt64.size) :
    Yields (FieldSource.model : StateT σ Result Model) model.refreshed.fields
      ((model.trees.toList.forM Tree.validate).map fun _ => model.refreshed) := by
  have hplain : ∀ tree ∈ model.refreshed.trees, tree.Plain := by
    intro tree htree
    obtain ⟨original, -, rfl⟩ := Array.mem_map.mp htree
    exact ⟨rfl, rfl⟩
  have hchecked : model.refreshed.trees.toList.forM Tree.validate =
      model.trees.toList.forM Tree.validate := by
    rw [refreshed_trees]
    exact Tree.forM_stored model.trees.toList
  have hsize : model.refreshed.numTree < UInt64.size := by
    rwa [numTree, refreshed, Array.size_map]
  have hread := model_yields (σ := σ) rfl hsize rfl hplain
  rwa [hchecked] at hread

/-- The bytes of a model give it back if its trees pass their check, and else the first failure of
that check. What stands behind them is left. -/
theorem ofBytes_toBytes {model : Model} (h : model.Addressable) (rest : List UInt8) :
    ofBytes (model.toBytes ++ rest) =
      (model.trees.toList.forM Tree.validate).map fun _ => (model.refreshed, rest) := by
  have hread := refreshed_yields (σ := ByteSource) h.numTree _ _
    (ByteSource.holds_bytes (refreshed_addressable h) rest)
  unfold ofBytes toBytes
  rw [hread]
  cases model.trees.toList.forM Tree.validate <;> rfl

/-- Read a number of models, each where the one before ends. -/
def manyOfBytes : Nat → List UInt8 → Result (List Model × List UInt8)
  | 0, bytes => .ok ([], bytes)
  | count + 1, bytes => do
    let (model, rest) ← ofBytes bytes
    let (models, rest) ← manyOfBytes count rest
    return (model :: models, rest)

theorem ofBytes_toBytes_ok {model : Model} (h : model.Addressable)
    (hvalid : ∀ tree ∈ model.trees, tree.validate = .ok ()) (rest : List UInt8) :
    ofBytes (model.toBytes ++ rest) = .ok (model.refreshed, rest) := by
  rw [ofBytes_toBytes h, Tree.forM_validate_eq_ok.mpr hvalid]
  rfl

theorem manyOfBytes_toBytes {models : List Model}
    (h : ∀ model ∈ models, model.Addressable ∧ ∀ tree ∈ model.trees, tree.validate = .ok ())
    (rest : List UInt8) :
    manyOfBytes models.length (models.flatMap toBytes ++ rest) =
      .ok (models.map refreshed, rest) := by
  induction models with
  | nil => rfl
  | cons model models ih =>
    obtain ⟨hfits, hvalid⟩ := h model List.mem_cons_self
    rw [List.length_cons, manyOfBytes, List.flatMap_cons, List.append_assoc,
      ofBytes_toBytes_ok hfits hvalid, ok_bind]
    dsimp only
    rw [ih fun other hother => h other (List.mem_cons_of_mem _ hother)]
    rfl

/-- The bytes of a model whose trees pass their check give back every bit of it, under the current
version and without skipped fields, and leave what stands behind them. The bytes of a model with
another tree give an error. Models that stand one behind the other are read one after the other. -/
theorem stream_roundTrip (model : Model) (rest : List UInt8) (hfits : model.Addressable) :
    ((∀ tree ∈ model.trees, tree.validate = .ok ()) →
      ofBytes (model.toBytes ++ rest) =
        .ok ({ model with
          trees := model.trees.map fun tree =>
            { tree with treeOptionalFields := 0, nodeOptionalFields := 0 }
          version := ⟨4, 0, 0⟩
          optionalFields := 0 }, rest)) ∧
    ((∃ tree ∈ model.trees, tree.validate ≠ .ok ()) →
      ∃ e, ofBytes (model.toBytes ++ rest) = .error e) ∧
    ∀ models : List Model,
      (∀ other ∈ models, other.Addressable ∧ ∀ tree ∈ other.trees, tree.validate = .ok ()) →
      manyOfBytes models.length (models.flatMap toBytes ++ rest) =
        .ok (models.map refreshed, rest) := by
  refine ⟨fun hvalid => ofBytes_toBytes_ok hfits hvalid rest, ?_, fun models h =>
    manyOfBytes_toBytes h rest⟩
  rintro ⟨tree, htree, hinvalid⟩
  rw [ofBytes_toBytes hfits]
  cases hchecked : model.trees.toList.forM Tree.validate with
  | error e => exact ⟨e, rfl⟩
  | ok _ => exact absurd (Tree.forM_validate_eq_ok.mp hchecked tree htree) hinvalid

/-- A model with a leaf that is not a number, and with memories of skipped fields. -/
def memento : Model :=
  { create ⟨.single, false⟩ with
    trees := #[{ Tree.singleLeaf with leafValue := #[⟨0x7fc00001⟩], treeOptionalFields := 2 }]
    version := ⟨3, 9, 0⟩
    optionalFields := 1 }

theorem memento_addressable : memento.Addressable := ⟨by decide, by decide +kernel⟩

theorem memento_valid : ∀ tree ∈ memento.trees, tree.validate = .ok () :=
  Tree.forM_validate_eq_ok.mp (by decide +kernel)

theorem stream_roundTrip_memento :
    ofBytes (memento.toBytes ++ [1, 2, 3]) = .ok (memento.refreshed, [1, 2, 3]) ∧
      manyOfBytes 2 (memento.toBytes ++ (memento.toBytes ++ [1, 2, 3])) =
        .ok ([memento.refreshed, memento.refreshed], [1, 2, 3]) := by
  obtain ⟨hone, -, hmany⟩ := stream_roundTrip memento [1, 2, 3] memento_addressable
  refine ⟨hone memento_valid, ?_⟩
  have htwo := hmany [memento, memento] fun other hother => by
    obtain rfl : other = memento := by simpa using hother
    exact ⟨memento_addressable, memento_valid⟩
  rw [List.flatMap_cons, List.flatMap_singleton, List.append_assoc] at htwo
  exact htwo

end Model

end Arboretum

import Arboretum.Encoding.Element
import Arboretum.Model.Basic
import Arboretum.Tree.Validate

/-!
Reading a model field by field from a source of fields, in the order in which they are written.
The reader checks the version before anything that depends on it, skips optional fields that it
does not know, and checks every tree as soon as it is complete.
-/

namespace Arboretum

/-- Something that fields can be read from, one after another. The text names the field for
messages. -/
class FieldSource (σ : Type) where
  scalar {α : Type} [Element α] : String → StateT σ Result α
  column {α : Type} [Element α] : String → StateT σ Result (Array α)
  text : String → StateT σ Result String
  /-- Pass over a field whose meaning is unknown. -/
  skip : StateT σ Result Unit

/-- The version that can be read although its major number differs. -/
def legacyVersion : Int32 × Int32 := (3, 9)

/-- Data of the current major version and of the legacy version can be read. -/
def FormatVersion.check (version : FormatVersion) : Result Unit :=
  require (version.major = current.major ∨ (version.major, version.minor) = legacyVersion)
    (.version version)

namespace FieldSource

variable {σ : Type} [FieldSource σ]

def skipMany : Nat → StateT σ Result Unit
  | 0 => return ()
  | count + 1 => do
    skip
    skipMany count

/-- Pass over as many optional fields as were announced. -/
def skipOptional (slot : String) (count : Int32) : StateT σ Result Unit := do
  if count < 0 then throw (.format (.optionalFieldCount slot count.toInt))
  skipMany count.toInt.toNat

variable {T L : Type} [Element T] [Element L]

def tree : StateT σ Result (Tree T L) := do
  let numNodes ← scalar "num_nodes"
  let hasCategoricalSplit ← scalar "has_categorical_split"
  let kind ← column "node_type"
  let left ← column "cleft"
  let right ← column "cright"
  let feature ← column "split_index"
  let defaultLeft ← column "default_left"
  let leafValue ← column "leaf_value"
  let threshold ← column "threshold"
  let comparison ← column "cmp"
  let matchGoesRight ← column "category_list_right_child"
  let leafStore ← column "leaf_vector"
  let leafBegin ← column "leaf_vector_begin"
  let leafEnd ← column "leaf_vector_end"
  let categoryStore ← column "category_list"
  let categoryBegin ← column "category_list_begin"
  let categoryEnd ← column "category_list_end"
  let dataCount ← column "data_count"
  let hasDataCount ← column "data_count_present"
  let sumHess ← column "sum_hess"
  let hasSumHess ← column "sum_hess_present"
  let gain ← column "gain"
  let hasGain ← column "gain_present"
  let treeOptionalFields ← scalar "num_opt_field_per_tree"
  skipOptional "tree" treeOptionalFields
  let nodeOptionalFields ← scalar "num_opt_field_per_node"
  skipOptional "node" nodeOptionalFields
  let tree : Tree T L :=
    { numNodes, hasCategoricalSplit, kind, left, right, feature, defaultLeft, leafValue, threshold
      comparison, matchGoesRight, leafStore, leafBegin, leafEnd, categoryStore, categoryBegin
      categoryEnd, dataCount, hasDataCount, sumHess, hasSumHess, gain, hasGain
      treeOptionalFields, nodeOptionalFields }
  tree.validate
  return tree

def trees : Nat → Array (Tree T L) → StateT σ Result (Array (Tree T L))
  | 0, found => return found
  | count + 1, found => do
    let next ← tree
    trees count (found.push next)

def model : StateT σ Result Model := do
  let major ← scalar "major_ver"
  let minor ← scalar "minor_ver"
  let patch ← scalar "patch_ver"
  let version : FormatVersion := ⟨major, minor, patch⟩
  version.check
  let thresholdType ← scalar "threshold_type"
  let leafType ← scalar "leaf_output_type"
  let pairing ← Pairing.ofTypes thresholdType leafType
  let numTree : UInt64 ← scalar "num_tree"
  let numFeature ← scalar "num_feature"
  let task ← scalar "task_type"
  let averageTreeOutput ← scalar "average_tree_output"
  let numTarget ← scalar "num_target"
  let numClass ← column "num_class"
  let leafVectorShape ← column "leaf_vector_shape"
  let targetId ← column "target_id"
  let classId ← column "class_id"
  let postprocessor ← text "postprocessor"
  let sigmoidAlpha ← scalar "sigmoid_alpha"
  let ratioC ← scalar "ratio_c"
  let baseScores ← column "base_scores"
  let attributes ← text "attributes"
  let optionalFields ← scalar "num_opt_field_per_model"
  skipOptional "model" optionalFields
  let trees ← trees numTree.toNat #[]
  let info : ModelInfo :=
    { numFeature, task, averageTreeOutput, numTarget, numClass, leafVectorShape, targetId, classId
      postprocessor, sigmoidAlpha, ratioC, baseScores, attributes }
  return { pairing, trees, info, version, optionalFields }

end FieldSource

end Arboretum

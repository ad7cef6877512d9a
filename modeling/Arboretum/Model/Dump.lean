import Arboretum.Json.Basic
import Arboretum.Model.Basic

/-!
A model as JSON for a human reader. The order of the members is fixed. A node shows what its kind
uses: a leaf its output, a test its feature and what it is compared with; statistics stand only
where they were recorded.
-/

namespace Arboretum

def Scalar.toJson : Scalar → Json
  | uint32 n => .integer n.toNat
  | single x => .single x
  | double x => .double x

def numbersJson {α : Type} (toInt : α → Int) (values : Array α) : Json :=
  .array (values.toList.map fun value => .integer (toInt value))

namespace Node

variable {T L : Type} [Numeric T] [Numeric L]

def outputJson (node : Node T L) : Json :=
  if node.hasLeafVector then
    .array (node.leafVector.toList.map fun value => (Numeric.toScalar value).toJson)
  else (Numeric.toScalar node.leafValue).toJson

def testJson (node : Node T L) : List (String × Json) :=
  if node.kind = .categoricalTest then
    [("category_list", numbersJson (fun category => category.toNat) node.categories),
      ("category_list_right_child", .bool node.matchGoesRight)]
  else
    [("comparison_op", .string (Enumeration.name node.comparison)),
      ("threshold", (Numeric.toScalar node.threshold).toJson)]

def statisticsJson (node : Node T L) : List (String × Json) :=
  (node.dataCount.map fun count => ("data_count", Json.integer count.toNat)).toList ++
  (node.sumHess.map fun sum => ("sum_hess", Json.double sum)).toList ++
  (node.gain.map fun gain => ("gain", Json.double gain)).toList

def toJson (nid : Nat) (node : Node T L) : Json :=
  let body :=
    if node.isLeaf then [("leaf_value", node.outputJson)]
    else
      [("split_feature_id", .integer node.feature.toNat),
        ("default_left", .bool node.defaultLeft),
        ("node_type", .string (Enumeration.name node.kind))] ++
      node.testJson ++
      [("left_child", .integer node.left.toInt), ("right_child", .integer node.right.toInt)]
  .object (("node_id", .integer nid) :: body ++ node.statisticsJson)

end Node

def Tree.toJson {T L : Type} [Numeric T] [Numeric L] (tree : Tree T L) : Json :=
  .object
    [("num_nodes", .integer tree.numNodes.toInt),
      ("has_categorical_split", .bool tree.hasCategoricalSplit),
      ("nodes", .array (tree.nodes.zipIdx.map fun entry => entry.1.toJson entry.2))]

namespace Model

def toJson (model : Model) : Json :=
  let info := model.info
  .object
    [("num_feature", .integer info.numFeature.toInt),
      ("task_type", .string (Enumeration.name info.task)),
      ("average_tree_output", .bool info.averageTreeOutput),
      ("num_target", .integer info.numTarget.toNat),
      ("num_class", numbersJson (fun n => n.toNat) info.numClass),
      ("leaf_vector_shape", numbersJson (fun n => n.toNat) info.leafVectorShape),
      ("target_id", numbersJson Int32.toInt info.targetId),
      ("class_id", numbersJson Int32.toInt info.classId),
      ("postprocessor", .string info.postprocessor),
      ("sigmoid_alpha", .single info.sigmoidAlpha),
      ("ratio_c", .single info.ratioC),
      ("base_scores", .array (info.baseScores.toList.map .double)),
      ("attributes", .string info.attributes),
      ("trees", .array (model.trees.toList.map Tree.toJson))]

def dump (model : Model) (pretty : Bool) : String :=
  if pretty then model.toJson.prettyText else model.toJson.compactText

end Model

end Arboretum

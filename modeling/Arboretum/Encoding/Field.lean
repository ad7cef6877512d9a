import Arboretum.Model.Basic

/-!
A model as a flat list of typed fields, the content that both encodings carry: the header and the
metadata of the model, then every column of every tree, in one fixed order.
-/

namespace Arboretum

/-- A stored field: one value, a column of them, or a text. -/
inductive Field where
  | scalar {α : Type} [Element α] (value : α)
  | column {α : Type} [Element α] (values : Array α)
  | text (value : String)

namespace Tree

variable {T L : Type} [Element T] [Element L]

def fields (tree : Tree T L) : List Field :=
  [.scalar tree.numNodes,
    .scalar tree.hasCategoricalSplit,
    .column tree.kind,
    .column tree.left,
    .column tree.right,
    .column tree.feature,
    .column tree.defaultLeft,
    .column tree.leafValue,
    .column tree.threshold,
    .column tree.comparison,
    .column tree.matchGoesRight,
    .column tree.leafStore,
    .column tree.leafBegin,
    .column tree.leafEnd,
    .column tree.categoryStore,
    .column tree.categoryBegin,
    .column tree.categoryEnd,
    .column tree.dataCount,
    .column tree.hasDataCount,
    .column tree.sumHess,
    .column tree.hasSumHess,
    .column tree.gain,
    .column tree.hasGain,
    .scalar tree.treeOptionalFields,
    .scalar tree.nodeOptionalFields]

end Tree

namespace Model

/-- The fields of the model without its trees. -/
def headerFields (model : Model) : List Field :=
  let info := model.info
  [.scalar model.version.major,
    .scalar model.version.minor,
    .scalar model.version.patch,
    .scalar model.pairing.thresholdType,
    .scalar model.pairing.leafType,
    .scalar (UInt64.ofNat model.numTree),
    .scalar info.numFeature,
    .scalar info.task,
    .scalar info.averageTreeOutput,
    .scalar info.numTarget,
    .column info.numClass,
    .column info.leafVectorShape,
    .column info.targetId,
    .column info.classId,
    .text info.postprocessor,
    .scalar info.sigmoidAlpha,
    .scalar info.ratioC,
    .column info.baseScores,
    .text info.attributes,
    .scalar model.optionalFields]

def fields (model : Model) : List Field :=
  model.headerFields ++ model.trees.toList.flatMap Tree.fields

end Model

end Arboretum

import Arboretum.Predict.Options
import Arboretum.Tree.Validate

/-!
The check before a prediction: everything that the computation looks up is there, so that it cannot
fail halfway. Which parts are looked up depends on the kind of the prediction.
-/

namespace Arboretum

namespace Model

/-- The target and class of one tree exist, and its leaf outputs have the shape they need. -/
def checkRouting (info : ModelInfo) (tree : Nat) (shape : LeafShape) (target class_ : Int32) :
    Result Unit := do
  let maxNumClass := largestClassCount info.numClass
  if target ≠ allSlots then
    require (0 ≤ target ∧ target.toUInt32 < info.numTarget)
      (.structural (.invalidTarget tree target.toInt))
  let bound :=
    if target = allSlots then maxNumClass else info.numClass.getD target.toInt.toNat 0
  require (class_ = allSlots ∨ (0 ≤ class_ ∧ class_.toUInt32 < bound))
    (.structural (.invalidClass tree class_.toInt))
  let needed := LeafShape.ofRouting target class_ info.numTarget maxNumClass
  require (needed = shape)
    (.structural (.leafShapeMismatch tree target.toInt class_.toInt needed shape))

/-- One node can be evaluated: a leaf has the output that is asked for, a test a feature of the
model and a comparison. -/
def checkNode {T L : Type} (info : ModelInfo) (kind : PredictKind) (shape : LeafShape)
    (tree nid : Nat) (node : Node T L) : Result Unit := do
  if node.isLeaf then
    if kind ≠ .leafId then
      require (!node.hasLeafVector ∨ node.leafVector.size = shape.size)
        (.structural (.leafVectorMismatch tree nid node.leafVector.size shape.size))
      require (node.hasLeafVector ∨ !kind.sums ∨
          (info.targetId.getD tree 0 ≠ allSlots ∧ info.classId.getD tree 0 ≠ allSlots))
        (.structural (.scalarForVector tree nid))
  else
    let numFeature := info.numFeature.toInt.toNat
    require (node.feature.toNat < numFeature)
      (.structural (.unknownFeature tree nid node.feature.toNat numFeature))
    require (node.kind = .categoricalTest ∨ node.comparison ≠ .never)
      (.format (.missingComparison tree nid))

/-- One tree is a tree, and all its nodes can be evaluated. -/
def checkTree {T L : Type} (info : ModelInfo) (kind : PredictKind) (shape : LeafShape)
    (tree : Tree T L) (index : Nat) : Result Unit := do
  require (tree.numNodes ≠ 0) (.structural (.emptyTree index))
  tree.validate
  tree.nodes.zipIdx.forM fun (node, nid) => checkNode info kind shape index nid node

def leafShape (info : ModelInfo) : Result LeafShape := do
  match info.leafVectorShape.toList with
  | [targets, classes] => return ⟨targets, classes⟩
  | _ => throw (.config (.leafShapeLength info.leafVectorShape.size))

/-- Everything that a prediction of the given kind looks up is there. -/
def check (model : Model) (kind : PredictKind) : Result Unit := do
  let info := model.info
  let numTree := model.numTree
  require (1 ≤ info.numTarget ∧ info.numClass.size = info.numTarget.toNat)
    (.config (.classesPerTarget info.numClass.size info.numTarget.toNat))
  require (info.numClass.all fun count => 1 ≤ count) (.config .targetWithoutClass)
  let shape ← leafShape info
  require (info.targetId.size = numTree ∧ info.classId.size = numTree)
    (.structural (.routingLength info.targetId.size info.classId.size numTree))
  if kind.sums then
    let expected := info.numTarget.toNat * model.maxNumClass.toNat
    require (info.baseScores.size = expected)
      (.config (.baseScores expected info.baseScores.size))
    (info.targetId.toList.zip info.classId.toList).zipIdx.forM fun ((target, class_), tree) =>
      checkRouting info tree shape target class_
  model.trees.toList.zipIdx.forM fun (tree, index) => checkTree info kind shape tree index

end Model

end Arboretum

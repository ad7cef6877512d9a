import Arboretum.Model.Basic
import Arboretum.Tree.Walk

/-!
The scores of a row as one formula for each class of each target: the outputs of the trees that
feed it, added in their order, averaged if the model asks for it, plus the base score. Nothing here
knows of layouts, strides or blocks.
-/

namespace Arboretum

/-- The entry of its leaf outputs that a tree with the given target and class adds to class `c` of
target `t`, where the outputs for every class of every target have `maxNumClass` entries a target;
nothing if the tree does not feed it. -/
def leafOffset? (maxNumClass : Nat) (target class_ : Int32) (t c : Nat) : Option Nat :=
  if target = allSlots then
    if class_ = allSlots then some (t * maxNumClass + c)
    else if class_.toInt = c then some t else none
  else if target.toInt = t then
    if class_ = allSlots then some c
    else if class_.toInt = c then some 0 else none
  else none

/-- The number that a leaf offers at one entry of its outputs. A leaf without vector offers its only
number everywhere. -/
def Node.offered? {T L : Type} (node : Node T L) (entry : Nat) : Option L :=
  if node.hasLeafVector then node.leafVector[entry]? else some node.leafValue

/-- The number that a tree offers at one entry of the leaf that a row reaches. -/
def Tree.contribution? {T L α : Type} [Numeric T] [Score α] (tree : Tree T L) (row : Array α)
    (entry : Nat) : Option L := do
  let node ← tree.node? (← tree.leafOf? row)
  node.offered? entry

namespace Model

variable (model : Model)

/-- The entry of its leaf outputs that a tree of the model adds to class `c` of target `t`. -/
def feeds? (index t c : Nat) : Option Nat := do
  leafOffset? model.maxNumClass.toNat (← model.info.targetId[index]?) (← model.info.classId[index]?)
    t c

def feedCount (t c : Nat) : Nat :=
  (List.range model.numTree).countP fun index => (model.feeds? index t c).isSome

variable {α : Type} [Score α]

def addFed? (row : Array α) (t c : Nat) (sum : α)
    (entry : Tree model.pairing.Threshold model.pairing.Leaf × Nat) : Option α :=
  match model.feeds? entry.2 t c with
  | none => some sum
  | some place => do return Score.add sum (Numeric.cast (← entry.1.contribution? row place))

/-- The sum of everything that is added to class `c` of target `t`, in the order of the trees. -/
def summed? (row : Array α) (t c : Nat) : Option α :=
  model.trees.toList.zipIdx.foldlM (model.addFed? row t c) Numeric.zero

/-- The score of class `c` of target `t` before post-processing. -/
def rawScore? (row : Array α) (t c : Nat) : Option α := do
  let sum ← model.summed? row t c
  let base ← model.info.baseScores[t * model.maxNumClass.toNat + c]?
  let count := model.feedCount t c
  let average :=
    if model.info.averageTreeOutput ∧ 0 < count then Score.div sum (FloatWord.ofNat count) else sum
  return Score.add average (Numeric.cast base)

end Model

end Arboretum

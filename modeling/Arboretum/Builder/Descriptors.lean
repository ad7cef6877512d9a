import Arboretum.Json.Reader
import Arboretum.Model.Basic
import Arboretum.Postprocessor

/-!
What is said about a model before its trees: the task and its output layout, the routing of every
tree, and the post-processing function. The checks refuse descriptors that contradict each other.
-/

namespace Arboretum

/-- The task and the output layout. -/
structure Metadata where
  numFeature : Int32
  task : Task
  averageTreeOutput : Bool
  numTarget : UInt32
  numClass : Array UInt32
  leafShape : LeafShape
  deriving DecidableEq, Repr

namespace Metadata

def maxNumClass (metadata : Metadata) : UInt32 := largestClassCount metadata.numClass

def validate (metadata : Metadata) : Result Unit := do
  let numTarget := metadata.numTarget
  let shape := metadata.leafShape
  require (0 ≤ metadata.numFeature) (.parameter (.featureCount metadata.numFeature.toInt))
  require (1 ≤ numTarget) (.parameter .noTarget)
  require (metadata.numClass.size = numTarget.toNat)
    (.config (.numClassLength numTarget.toNat metadata.numClass.size))
  require (metadata.numClass.all fun count => 1 ≤ count) (.config .emptyClass)
  require (shape.targets = 1 ∨ shape.targets = numTarget)
    (.config (.leafShapeTargets numTarget.toNat shape.targets.toNat))
  require (shape.classes = 1 ∨ shape.classes = metadata.maxNumClass)
    (.config (.leafShapeClasses metadata.maxNumClass.toNat shape.classes.toNat))

end Metadata

/-- How many trees follow and what each of them feeds. -/
structure TreeRouting where
  numTree : UInt32
  targetId : Array Int32
  classId : Array Int32
  deriving DecidableEq, Repr

namespace TreeRouting

/-- Every tree has a target and a class. -/
def validate (routing : TreeRouting) : Result Unit := do
  let numTree := routing.numTree.toNat
  require (routing.targetId.size = numTree)
    (.config (.routingFieldLength "target_id" numTree routing.targetId.size))
  require (routing.classId.size = numTree)
    (.config (.routingFieldLength "class_id" numTree routing.classId.size))

/-- One tree's target and class exist, and the declared leaf shape is the one it needs. -/
def checkTree (metadata : Metadata) (tree : Nat) (target class_ : Int32) : Result Unit := do
  let maxNumClass := metadata.maxNumClass
  require (-1 ≤ target ∧ target < metadata.numTarget.toInt32)
    (.config (.targetOutOfRange tree target.toInt metadata.numTarget.toNat))
  let bound :=
    if 0 ≤ target then metadata.numClass.getD target.toInt.toNat 0 else maxNumClass
  require (-1 ≤ class_ ∧ class_ < bound.toInt32)
    (.config (.classOutOfRange tree class_.toInt bound.toNat))
  let needed := LeafShape.ofRouting target class_ metadata.numTarget maxNumClass
  require (needed = metadata.leafShape)
    (.config (.leafShapeMismatch tree target.toInt class_.toInt needed metadata.leafShape))

def validateAgainst (routing : TreeRouting) (metadata : Metadata) : Result Unit :=
  (routing.targetId.toList.zip routing.classId.toList).zipIdx.forM fun entry =>
    checkTree metadata entry.2 entry.1.1 entry.1.2

end TreeRouting

/-- A post-processing function by name, with its parameters as the text of a JSON object. -/
structure PostprocessorChoice where
  name : String
  config : String
  deriving DecidableEq, Repr

/-- The parameters that a post-processing function may be given. -/
structure PostprocessorParams where
  sigmoidAlpha : Option Single
  ratioC : Option Single
  deriving DecidableEq, Repr

namespace PostprocessorChoice

/-- An optional number among the members of an object. -/
def parameter (members : List (String × Json)) (name : String) : Result (Option Single) :=
  match members.lookup name with
  | none | some .null => .ok none
  | some (.integer n) => .ok (some (NumberValue.integer n).toSingle)
  | some (.double x) => .ok (some (NumberValue.double x).toSingle)
  | some _ => .error .json

def params (choice : PostprocessorChoice) : Result PostprocessorParams :=
  match JsonReader.value.run choice.config with
  | none => .error .json
  | some (.object members) => do
    return ⟨← parameter members "sigmoid_alpha", ← parameter members "ratio_c"⟩
  | some _ => .error (.config .postprocessorConfig)

end PostprocessorChoice

end Arboretum

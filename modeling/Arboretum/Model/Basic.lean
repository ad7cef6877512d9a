import Arboretum.Encoding.Element
import Arboretum.Tree.Edit

/-!
A model: an ensemble of trees of one type pairing, with its metadata. Thresholds are floating-point
words; leaf outputs are of the threshold type or 32-bit unsigned integers.
-/

namespace Arboretum

/-- The width of thresholds. -/
inductive Precision where
  | single
  | double
  deriving DecidableEq, Repr, Inhabited

namespace Precision

abbrev Word : Precision → Type
  | single => Single
  | double => Double

def valueType : Precision → ValueType
  | single => .float32
  | double => .float64

instance : (p : Precision) → Score p.Word
  | single => inferInstanceAs (Score Single)
  | double => inferInstanceAs (Score Double)

instance : (p : Precision) → LawfulNumeric p.Word
  | single => inferInstanceAs (LawfulNumeric Single)
  | double => inferInstanceAs (LawfulNumeric Double)

instance : (p : Precision) → Element p.Word
  | single => inferInstanceAs (Element Single)
  | double => inferInstanceAs (Element Double)

instance : (p : Precision) → DecidableEq p.Word
  | single => inferInstanceAs (DecidableEq Single)
  | double => inferInstanceAs (DecidableEq Double)

end Precision

/-- Which types thresholds and leaf outputs have. -/
structure Pairing where
  precision : Precision
  /-- Leaf outputs are 32-bit integers instead of words of the threshold type. -/
  integerLeaves : Bool
  deriving DecidableEq, Repr, Inhabited

namespace Pairing

abbrev Threshold (p : Pairing) : Type := p.precision.Word

abbrev Leaf : Pairing → Type
  | ⟨precision, false⟩ => precision.Word
  | ⟨_, true⟩ => UInt32

def thresholdType (p : Pairing) : ValueType := p.precision.valueType

def leafType (p : Pairing) : ValueType :=
  if p.integerLeaves then .uint32 else p.precision.valueType

instance : (p : Pairing) → Numeric p.Leaf
  | ⟨precision, false⟩ => inferInstanceAs (Numeric precision.Word)
  | ⟨_, true⟩ => inferInstanceAs (Numeric UInt32)

instance : (p : Pairing) → LawfulNumeric p.Leaf
  | ⟨precision, false⟩ => inferInstanceAs (LawfulNumeric precision.Word)
  | ⟨_, true⟩ => inferInstanceAs (LawfulNumeric UInt32)

instance : (p : Pairing) → Element p.Leaf
  | ⟨precision, false⟩ => inferInstanceAs (Element precision.Word)
  | ⟨_, true⟩ => inferInstanceAs (Element UInt32)

instance : (p : Pairing) → DecidableEq p.Leaf
  | ⟨precision, false⟩ => inferInstanceAs (DecidableEq precision.Word)
  | ⟨_, true⟩ => inferInstanceAs (DecidableEq UInt32)

/-- The pairing of two value types. Thresholds are words, and leaves that are not integers have
the threshold type. -/
def ofTypes (threshold leaf : ValueType) : Result Pairing :=
  match threshold, leaf with
  | .float32, .float32 => .ok ⟨.single, false⟩
  | .float32, .uint32 => .ok ⟨.single, true⟩
  | .float64, .float64 => .ok ⟨.double, false⟩
  | .float64, .uint32 => .ok ⟨.double, true⟩
  | _, _ => .error (.typeMismatch (.pairing threshold leaf))

end Pairing

structure ModelInfo where
  numFeature : Int32
  task : Task
  averageTreeOutput : Bool
  numTarget : UInt32
  /-- How many classes each target has. -/
  numClass : Array UInt32
  leafVectorShape : Array UInt32
  /-- The target that each tree feeds, or all of them. -/
  targetId : Array Int32
  /-- The class that each tree feeds, or all of them. -/
  classId : Array Int32
  postprocessor : String
  sigmoidAlpha : Single
  ratioC : Single
  /-- A start score for each class of each target, class by class. -/
  baseScores : Array Double
  attributes : String
  deriving DecidableEq, Repr

/-- The free-form attributes of a model that was given none. -/
def noAttributes : String := "\x7b\x7d"

namespace ModelInfo

/-- One target with one class, no trees, and no post-processing. -/
def initial : ModelInfo where
  numFeature := 0
  task := .binaryClassification
  averageTreeOutput := false
  numTarget := 1
  numClass := #[1]
  leafVectorShape := #[1, 1]
  targetId := #[]
  classId := #[]
  postprocessor := "identity"
  sigmoidAlpha := Score.one
  ratioC := Score.one
  baseScores := #[Numeric.zero]
  attributes := noAttributes

instance : Inhabited ModelInfo := ⟨initial⟩

end ModelInfo

/-- The largest of the class counts, or one if there are none. -/
def largestClassCount (numClass : Array UInt32) : UInt32 :=
  match numClass.toList.max? with
  | some n => n
  | none => 1

structure Model where
  pairing : Pairing
  trees : Array (Tree pairing.Threshold pairing.Leaf)
  info : ModelInfo
  /-- The version of the data that the model was read from, or the current one. -/
  version : FormatVersion
  /-- How many unknown optional fields were skipped when the model was read. -/
  optionalFields : Int32

namespace Model

def create (pairing : Pairing) : Model := ⟨pairing, #[], .initial, .current, 0⟩

instance : Inhabited Model := ⟨create default⟩

def numTree (model : Model) : Nat := model.trees.size

def maxNumClass (model : Model) : UInt32 := largestClassCount model.info.numClass

/-- The model as it is stored: of the current version, and without what was skipped. -/
def refreshed (model : Model) : Model :=
  { model with
    trees := model.trees.map fun tree =>
      { tree with treeOptionalFields := 0, nodeOptionalFields := 0 }
    version := .current
    optionalFields := 0 }

def limitTrees (model : Model) (limit : Nat) : Result Model := do
  require (0 < limit) (.parameter .noTree)
  require (limit ≤ model.numTree) (.parameter (.treeLimit limit model.numTree))
  return { model with
    trees := model.trees.take limit
    info.targetId := model.info.targetId.take limit
    info.classId := model.info.classId.take limit }

/-- Append the trees of a model and their routing. -/
def appendTrees (total : Model) (index : Nat) (first next : Model) : Result Model :=
  if h : next.pairing = total.pairing then
    .ok { total with
      trees := total.trees ++ h ▸ next.trees
      info.targetId := total.info.targetId ++ next.info.targetId
      info.classId := total.info.classId ++ next.info.classId }
  else
    .error (.typeMismatch (.mixedPairings index next.pairing.thresholdType next.pairing.leafType
      first.pairing.thresholdType first.pairing.leafType))

/-- The trees of several models of one pairing, one model after the other, under the metadata of
the first. -/
def concat : List Model → Result Model
  | [] => .error (.config .noModels)
  | first :: rest => do
    let start := { create first.pairing with
      info := { first.info with targetId := #[], classId := #[] } }
    let total ← (first :: rest).zipIdx.foldlM
      (fun total entry => total.appendTrees entry.2 first entry.1) start
    return total.refreshed

/-- Whether two models have the same pairing and equal trees. -/
def sameTrees (a b : Model) : Bool :=
  if h : b.pairing = a.pairing then
    let others : Array (Tree a.pairing.Threshold a.pairing.Leaf) := h ▸ b.trees
    a.trees.size == others.size && (a.trees.zip others).all fun pair => pair.1.agrees pair.2
  else false

end Model

end Arboretum

import Arboretum.Builder.Descriptors
import Arboretum.Tree.Validate

/-!
Building a model from a sequence of calls. The caller names nodes by keys of its own; nodes are
numbered in the order of their declaration, the first one of a tree being its root, and the keys
of children are resolved when the tree is closed.

Every call is an edit of the builder that first asks the protocol and then checks its arguments.
-/

namespace Arboretum

/-- A tree under construction. The node declared last is the current one. -/
structure Draft (T : Type) where
  tree : Tree T T
  /-- The caller's key of each node. -/
  keys : Array Int32
  /-- The keys that the test of each node gave for its left and its right child. -/
  childKeys : Array (Option (Int32 × Int32))
  deriving DecidableEq, Repr

namespace Draft

variable {T : Type}

def empty : Draft T := ⟨.empty, #[], #[]⟩

def current (draft : Draft T) : Nat := draft.keys.size - 1

def nodeOf (draft : Draft T) (key : Int32) : Result Nat :=
  match draft.keys.findIdx? (· == key) with
  | some nid => .ok nid
  | none => .error (.structural (.unknownKey key.toInt))

def links (draft : Draft T) : Result (List (Nat × Nat × Nat)) :=
  let tests := draft.childKeys.toList.zipIdx.filterMap fun entry => entry.1.map (entry.2, ·)
  tests.mapM fun (nid, left, right) => do
    return (nid, ← draft.nodeOf left, ← draft.nodeOf right)

/-- The finished tree: a copy of the one under construction, with every test pointing at its
children. -/
def finish (draft : Draft T) : Result (Tree T T) := do
  let links ← draft.links
  let (result, tree) := Edit.apply (Tree.setAllChildren links) draft.tree
  result
  tree.validate
  return tree

/-- The children that a test names are two nodes other than the current one. -/
def checkChildKeys (draft : Draft T) (left right : Int32) : Result Unit := do
  let key := draft.keys.getD draft.current (-1)
  require (0 ≤ left ∧ 0 ≤ right) (.structural (.negativeChildKeys left.toInt right.toInt))
  require (left ≠ right) (.structural (.equalChildKeys left.toInt))
  require (left ≠ key ∧ right ≠ key) (.structural (.ownChild key.toInt))

def setChildKeys (draft : Draft T) (left right : Int32) : Draft T :=
  { draft with childKeys := draft.childKeys.setIfInBounds draft.current (some (left, right)) }

end Draft

structure Builder where
  precision : Precision
  /-- How many trees were announced. -/
  numTree : UInt32
  leafShape : LeafShape
  info : ModelInfo
  trees : Array (Tree precision.Word precision.Word)
  draft : Draft precision.Word
  phase : BuilderPhase

namespace Builder

/-- The precision that a builder works in: its thresholds are words and its leaves of the same
type. -/
def precisionOf (threshold leaf : ValueType) : Result Precision := do
  require (leaf = threshold) (.typeMismatch (.builderPairing threshold leaf))
  match threshold with
  | .float32 => return .single
  | .float64 => return .double
  | other => throw (.typeMismatch (.builderThreshold other))

/-- Attributes are the text of a JSON object, kept as it is. -/
def checkAttributes (text : String) : Result Unit :=
  match JsonReader.value.run text with
  | none => .error .json
  | some (.object _) => .ok ()
  | some _ => .error (.config .attributes)

/-- A builder for a model with the given types and descriptors. -/
def create (threshold leaf : ValueType) (metadata : Metadata) (routing : TreeRouting)
    (postprocessor : PostprocessorChoice) (baseScores : Array Double)
    (attributes : Option String) : Result Builder := do
  let precision ← precisionOf threshold leaf
  metadata.validate
  routing.validate
  routing.validateAgainst metadata
  let expected := metadata.numTarget.toNat * metadata.maxNumClass.toNat
  require (baseScores.size = expected) (.dimension (.baseScores expected baseScores.size))
  let kind ← PostprocessorKind.ofName postprocessor.name
  let params ← postprocessor.params
  if let some text := attributes then checkAttributes text
  let initial := ModelInfo.initial
  let info : ModelInfo :=
    { numFeature := metadata.numFeature
      task := metadata.task
      averageTreeOutput := metadata.averageTreeOutput
      numTarget := metadata.numTarget
      numClass := metadata.numClass
      leafVectorShape := #[metadata.leafShape.targets, metadata.leafShape.classes]
      targetId := routing.targetId
      classId := routing.classId
      postprocessor := postprocessor.name
      sigmoidAlpha :=
        if kind.usesSigmoidAlpha then params.sigmoidAlpha.getD initial.sigmoidAlpha
        else initial.sigmoidAlpha
      ratioC := if kind.usesRatioC then params.ratioC.getD initial.ratioC else initial.ratioC
      baseScores := baseScores
      attributes := attributes.getD initial.attributes }
  return {
    precision := precision
    numTree := routing.numTree
    leafShape := metadata.leafShape
    info := info
    trees := #[]
    draft := .empty
    phase := .expectTree }

/-- The phase that a call leads to. -/
def enter (call : BuilderCall) : Edit Builder BuilderPhase := do
  let b ← get
  match b.phase.after? call with
  | some phase => return phase
  | none => throw (.protocol (.unexpectedCall call b.phase))

def proceed (phase : BuilderPhase) : Edit Builder Unit := modify ({ · with phase := phase })

/-- Edit the tree under construction. -/
def editTree {α : Type} (edit : (p : Precision) → Edit (Tree p.Word p.Word) α) :
    Edit Builder α := do
  let b ← get
  let (result, tree) := Edit.apply (edit b.precision) b.draft.tree
  set { b with draft.tree := tree }
  result

def editCurrent (edit : (p : Precision) → Nat → Edit (Tree p.Word p.Word) Unit) :
    Edit Builder Unit := do
  let b ← get
  editTree fun p => edit p b.draft.current

def startTree : Edit Builder Unit := do
  let phase ← enter .startTree
  let b ← get
  require (b.trees.size < b.numTree.toNat)
    (.protocol (.tooManyTrees b.trees.size b.numTree.toNat))
  set { b with draft := .empty, phase := phase }

def endTree : Edit Builder Unit := do
  let phase ← enter .endTree
  let b ← get
  require (0 < b.draft.tree.nodeCount) (.structural .emptyDeclaration)
  let tree ← b.draft.finish
  set { b with trees := b.trees.push tree, draft := .empty, phase := phase }

/-- Declare a node under a key that the tree does not have yet. -/
def startNode (key : Int32) : Edit Builder Unit := do
  let phase ← enter .startNode
  let b ← get
  require (0 ≤ key) (.structural (.negativeKey key.toInt))
  require (key ∉ b.draft.keys) (.structural (.repeatedKey key.toInt))
  let _ ← editTree fun _ => Tree.allocNode
  modify fun b => { b with
    draft.keys := b.draft.keys.push key
    draft.childKeys := b.draft.childKeys.push none }
  proceed phase

def endNode : Edit Builder Unit := do
  proceed (← enter .endNode)

/-- A tested feature has to be one of the model's. -/
def checkFeature (b : Builder) (feature : Int32) : Result UInt32 := do
  require (0 ≤ feature ∧ feature < b.info.numFeature)
    (.structural (.featureOutOfRange feature.toInt b.info.numFeature.toInt))
  return feature.toUInt32

/-- Make the current node a test of a feature against a threshold, given in double precision. -/
def numericalTest (feature : Int32) (threshold : Double) (defaultLeft : Bool)
    (comparison : Comparison) (left right : Int32) : Edit Builder Unit := do
  let phase ← enter .numericalTest
  let b ← get
  let feature ← b.checkFeature feature
  b.draft.checkChildKeys left right
  require (comparison ≠ .never) (.structural .missingComparison)
  editCurrent fun _ nid =>
    Tree.setNumericalSplit nid feature (Numeric.cast threshold) defaultLeft comparison
  modify fun b => { b with draft := b.draft.setChildKeys left right }
  proceed phase

/-- Make the current node a test of a feature for membership in a list of categories. -/
def categoricalTest (feature : Int32) (defaultLeft : Bool) (categories : List UInt32)
    (matchGoesRight : Bool) (left right : Int32) : Edit Builder Unit := do
  let phase ← enter .categoricalTest
  let b ← get
  let feature ← b.checkFeature feature
  b.draft.checkChildKeys left right
  editCurrent fun _ nid =>
    Tree.setCategoricalSplit nid feature defaultLeft categories matchGoesRight
  modify fun b => { b with draft := b.draft.setChildKeys left right }
  proceed phase

/-- Make the current node a leaf with one number, given in double precision, as output. -/
def leafScalar (value : Double) : Edit Builder Unit := do
  let phase ← enter .leafScalar
  let b ← get
  require (b.leafShape = .scalar) (.structural (.scalarLeaf b.leafShape))
  editCurrent fun _ nid => Tree.setLeaf nid (Numeric.cast value)
  proceed phase

/-- Make the current node a leaf with a vector as output. The entries have to be of the type of
the model's leaves. -/
def leafVector {α : Type} [Numeric α] (values : Array α) : Edit Builder Unit := do
  let phase ← enter .leafVector
  let b ← get
  let expected := b.precision.valueType
  let given := Numeric.valueType α
  require (given = expected) (.typeMismatch (.leafVector expected given))
  require (values.size = b.leafShape.size)
    (.structural (.leafVectorLength b.leafShape values.size))
  editCurrent fun _ nid => Tree.setLeafVector nid (values.map Numeric.cast)
  proceed phase

/-- Record what the split at the current node gained. -/
def gain (gain : Double) : Edit Builder Unit := do
  let phase ← enter .gain
  editCurrent fun _ nid => Tree.setGain nid gain
  proceed phase

/-- Record how many training rows reached the current node. -/
def dataCount (count : UInt64) : Edit Builder Unit := do
  let phase ← enter .dataCount
  editCurrent fun _ nid => Tree.setDataCount nid count
  proceed phase

/-- Record the sum of the second derivatives over those rows. -/
def sumHess (sum : Double) : Edit Builder Unit := do
  let phase ← enter .sumHess
  editCurrent fun _ nid => Tree.setSumHess nid sum
  proceed phase

/-- Hand out the model once all announced trees are there. The builder is spent. -/
def commit : Edit Builder Model := do
  let phase ← enter .commitModel
  let b ← get
  require (b.trees.size = b.numTree.toNat)
    (.protocol (.missingTrees b.numTree.toNat b.trees.size))
  set { b with trees := #[], phase := phase }
  return ⟨⟨b.precision, false⟩, b.trees, b.info, .current, 0⟩

end Builder

end Arboretum

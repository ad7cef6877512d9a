import Arboretum.Edit
import Arboretum.Tree.Basic

/-!
Growing and changing a tree. Ids are given out in order and never reused.

The lists of a node that changes its kind stay in the stores. Category ranges are kept in node
order, which is why a categorical test cannot be set before one of a later node.
-/

namespace Arboretum

/-- Features are numbered below this bound. -/
def featureBound : UInt32 := 0x7fffffff

namespace Tree

variable {T L : Type}

section Growth

variable [Numeric T] [Numeric L]

/-- A leaf without output at the end of every column. -/
def pushNode (tree : Tree T L) : Tree T L :=
  let leafOffset := UInt64.ofNat tree.leafStore.size
  let categoryOffset := UInt64.ofNat tree.categoryStore.size
  { tree with
    numNodes := tree.numNodes + 1
    kind := tree.kind.push .leaf
    left := tree.left.push noChild
    right := tree.right.push noChild
    feature := tree.feature.push (-1)
    defaultLeft := tree.defaultLeft.push false
    leafValue := tree.leafValue.push Numeric.zero
    threshold := tree.threshold.push Numeric.zero
    comparison := tree.comparison.push .never
    matchGoesRight := tree.matchGoesRight.push false
    leafBegin := tree.leafBegin.push leafOffset
    leafEnd := tree.leafEnd.push leafOffset
    categoryBegin := tree.categoryBegin.push categoryOffset
    categoryEnd := tree.categoryEnd.push categoryOffset
    dataCount := tree.dataCount.push 0
    hasDataCount := tree.hasDataCount.push false
    sumHess := tree.sumHess.push Numeric.zero
    hasSumHess := tree.hasSumHess.push false
    gain := tree.gain.push Numeric.zero
    hasGain := tree.hasGain.push false }

/-- The tree of a single leaf with output zero. -/
def singleLeaf : Tree T L := empty.pushNode

/-- Start over with a single leaf. -/
def reset : Edit (Tree T L) Unit := set (singleLeaf : Tree T L)

/-- Append a node and return its id. -/
def allocNode : Edit (Tree T L) Nat := do
  let tree ← get
  tree.checkColumnSizes
  require (tree.numNodes < Int32.maxValue) (.structural .tooManyNodes)
  set tree.pushNode
  return tree.nodeCount

end Growth

def link (tree : Tree T L) (nid left right : Nat) : Tree T L :=
  { tree with
    left := tree.left.setIfInBounds nid (.ofNat left)
    right := tree.right.setIfInBounds nid (.ofNat right) }

def checkNode (nid : Nat) : Edit (Tree T L) Unit := do
  let tree ← get
  require (nid < tree.nodeCount) (.structural (.noSuchNode nid tree.numNodes.toInt))

def checkFeature (feature : UInt32) : Result Unit :=
  require (feature < featureBound)
    (.structural (.featureTooLarge feature.toNat featureBound.toNat))

/-- Append two nodes and make them the children of a node, whose kind stays. If only one of the
two has room, the other is left without a parent. -/
def addChildren [Numeric T] [Numeric L] (nid : Nat) : Edit (Tree T L) Unit := do
  checkNode nid
  let left ← allocNode
  let right ← allocNode
  modify (link · nid left right)

/-- Make two existing nodes the children of a node. -/
def setChildren (nid left right : Nat) : Edit (Tree T L) Unit := do
  checkNode nid
  checkNode left
  checkNode right
  modify (link · nid left right)

/-- The same for several nodes, one after another. -/
def setAllChildren (links : List (Nat × Nat × Nat)) : Edit (Tree T L) Unit :=
  links.forM fun (nid, left, right) => setChildren nid left right

def setNumericalSplit (nid : Nat) (feature : UInt32) (threshold : T) (defaultLeft : Bool)
    (comparison : Comparison) : Edit (Tree T L) Unit := do
  checkNode nid
  checkFeature feature
  modify fun tree => { tree with
    feature := tree.feature.setIfInBounds nid feature.toInt32
    defaultLeft := tree.defaultLeft.setIfInBounds nid defaultLeft
    threshold := tree.threshold.setIfInBounds nid threshold
    comparison := tree.comparison.setIfInBounds nid comparison
    kind := tree.kind.setIfInBounds nid .numericalTest
    matchGoesRight := tree.matchGoesRight.setIfInBounds nid false }

/-- The first node after the given one whose categories do not begin and end where the store
ends. -/
def laterCategories? (tree : Tree T L) (nid : Nat) : Option Nat :=
  let storeEnd := UInt64.ofNat tree.categoryStore.size
  (List.range tree.nodeCount).find? fun later =>
    nid < later && (tree.categoryBegin[later]? != some storeEnd ||
      tree.categoryEnd[later]? != some storeEnd)

/-- Append categories in ascending order to their store and give them to a node. The empty ranges
of all later nodes move to the new end of the store. -/
def appendCategories (tree : Tree T L) (nid : Nat) (categories : List UInt32) : Tree T L :=
  let first := UInt64.ofNat tree.categoryStore.size
  let store := tree.categoryStore ++ (categories.mergeSort (· ≤ ·)).toArray
  let last := UInt64.ofNat store.size
  { tree with
    categoryStore := store
    categoryBegin := tree.categoryBegin.mapIdx fun i old =>
      if i = nid then first else if nid < i then last else old
    categoryEnd := tree.categoryEnd.mapIdx fun i old => if nid ≤ i then last else old }

def setCategoricalSplit (nid : Nat) (feature : UInt32) (defaultLeft : Bool)
    (categories : List UInt32) (matchGoesRight : Bool) : Edit (Tree T L) Unit := do
  checkNode nid
  checkFeature feature
  let tree ← get
  if let some later := tree.laterCategories? nid then
    throw (.structural (.categoriesOutOfOrder nid later))
  modify (appendCategories · nid categories)
  modify fun tree => { tree with
    feature := tree.feature.setIfInBounds nid feature.toInt32
    defaultLeft := tree.defaultLeft.setIfInBounds nid defaultLeft
    kind := tree.kind.setIfInBounds nid .categoricalTest
    matchGoesRight := tree.matchGoesRight.setIfInBounds nid matchGoesRight
    comparison := tree.comparison.setIfInBounds nid .never
    hasCategoricalSplit := true }

/-- Take the children from a node and make it a leaf. -/
def cutBelow (tree : Tree T L) (nid : Nat) : Tree T L :=
  { tree with
    left := tree.left.setIfInBounds nid noChild
    right := tree.right.setIfInBounds nid noChild
    kind := tree.kind.setIfInBounds nid .leaf }

def setLeaf (nid : Nat) (value : L) : Edit (Tree T L) Unit := do
  checkNode nid
  modify fun tree => { tree.cutBelow nid with
    leafValue := tree.leafValue.setIfInBounds nid value
    leafEnd := tree.leafEnd.setIfInBounds nid (tree.leafBegin.getD nid 0) }

def setLeafVector (nid : Nat) (values : Array L) : Edit (Tree T L) Unit := do
  checkNode nid
  modify fun tree => { tree.cutBelow nid with
    leafStore := tree.leafStore ++ values
    leafBegin := tree.leafBegin.setIfInBounds nid (.ofNat tree.leafStore.size)
    leafEnd := tree.leafEnd.setIfInBounds nid (.ofNat (tree.leafStore.size + values.size)) }

/-- Record how many training rows reached a node. -/
def setDataCount (nid : Nat) (count : UInt64) : Edit (Tree T L) Unit := do
  checkNode nid
  modify fun tree => { tree with
    dataCount := tree.dataCount.setIfInBounds nid count
    hasDataCount := tree.hasDataCount.setIfInBounds nid true }

/-- Record the sum of the second derivatives over those rows. -/
def setSumHess (nid : Nat) (sum : Double) : Edit (Tree T L) Unit := do
  checkNode nid
  modify fun tree => { tree with
    sumHess := tree.sumHess.setIfInBounds nid sum
    hasSumHess := tree.hasSumHess.setIfInBounds nid true }

/-- Record what the split at a node gained. -/
def setGain (nid : Nat) (gain : Double) : Edit (Tree T L) Unit := do
  checkNode nid
  modify fun tree => { tree with
    gain := tree.gain.setIfInBounds nid gain
    hasGain := tree.hasGain.setIfInBounds nid true }

end Tree

end Arboretum

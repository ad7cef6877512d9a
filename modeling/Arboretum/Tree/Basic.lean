import Arboretum.Error
import Arboretum.Numeric.Scalar

/-!
A decision tree as columns: one array for each attribute, indexed by node. Node 0 is the root.
Leaf vectors and category lists have no fixed length; they lie in two stores that all nodes share,
and each node has a range in both. `Tree.node?` is the view of one node through all columns.
-/

namespace Arboretum

/-- The id in place of a child that is not there. -/
def noChild : Int32 := -1

/-- A decision tree with thresholds in `T` and leaf outputs in `L`. -/
structure Tree (T L : Type) where
  numNodes : Int32
  hasCategoricalSplit : Bool
  kind : Array NodeKind
  left : Array Int32
  right : Array Int32
  feature : Array Int32
  defaultLeft : Array Bool
  leafValue : Array L
  threshold : Array T
  comparison : Array Comparison
  matchGoesRight : Array Bool
  leafStore : Array L
  leafBegin : Array UInt64
  leafEnd : Array UInt64
  categoryStore : Array UInt32
  categoryBegin : Array UInt64
  categoryEnd : Array UInt64
  dataCount : Array UInt64
  hasDataCount : Array Bool
  sumHess : Array Double
  hasSumHess : Array Bool
  gain : Array Double
  hasGain : Array Bool
  /-- How many unknown optional fields of the tree were skipped when it was read. -/
  treeOptionalFields : Int32
  /-- How many unknown optional fields of its nodes were skipped when it was read. -/
  nodeOptionalFields : Int32
  deriving DecidableEq, Repr

/-- Everything that is stored about one node. -/
structure Node (T L : Type) where
  kind : NodeKind
  left : Int32
  right : Int32
  feature : UInt32
  defaultLeft : Bool
  threshold : T
  comparison : Comparison
  leafValue : L
  leafVector : Array L
  categories : Array UInt32
  matchGoesRight : Bool
  dataCount : Option UInt64
  sumHess : Option Double
  gain : Option Double
  deriving DecidableEq, Repr

namespace Node

variable {T L : Type} (node : Node T L)

/-- A node is a leaf when it has no left child, whatever its kind says. -/
def isLeaf : Bool := node.left = noChild

def hasLeafVector : Bool := !node.leafVector.isEmpty

/-- The child for rows whose tested feature is missing. -/
def defaultChild : Int32 := if node.defaultLeft then node.left else node.right

end Node

/-- The part of a store between two offsets: nothing stored if they are out of order, nothing at
all if the store ends before them. -/
def storeRange? {α : Type} (store : Array α) (first last : UInt64) : Option (Array α) :=
  if last ≤ first then some #[]
  else if last.toNat ≤ store.size then some (store.extract first.toNat last.toNat)
  else none

/-- An entry of a column whose entries count only where a flag is set. -/
def recorded? {α : Type} (flags : Array Bool) (values : Array α) (nid : Nat) :
    Option (Option α) := do
  let value ← values[nid]?
  if ← flags[nid]? then return some value else return none

namespace Tree

variable {T L : Type}

def empty : Tree T L where
  numNodes := 0
  hasCategoricalSplit := false
  kind := #[]
  left := #[]
  right := #[]
  feature := #[]
  defaultLeft := #[]
  leafValue := #[]
  threshold := #[]
  comparison := #[]
  matchGoesRight := #[]
  leafStore := #[]
  leafBegin := #[]
  leafEnd := #[]
  categoryStore := #[]
  categoryBegin := #[]
  categoryEnd := #[]
  dataCount := #[]
  hasDataCount := #[]
  sumHess := #[]
  hasSumHess := #[]
  gain := #[]
  hasGain := #[]
  treeOptionalFields := 0
  nodeOptionalFields := 0

instance : Inhabited (Tree T L) := ⟨empty⟩

/-- The number of nodes; none if the counter is negative. -/
def nodeCount (tree : Tree T L) : Nat := tree.numNodes.toInt.toNat

def columnSizes (tree : Tree T L) : List (String × Nat) :=
  [("node_type", tree.kind.size),
    ("cleft", tree.left.size),
    ("cright", tree.right.size),
    ("split_index", tree.feature.size),
    ("default_left", tree.defaultLeft.size),
    ("leaf_value", tree.leafValue.size),
    ("threshold", tree.threshold.size),
    ("cmp", tree.comparison.size),
    ("category_list_right_child", tree.matchGoesRight.size),
    ("leaf_vector_begin", tree.leafBegin.size),
    ("leaf_vector_end", tree.leafEnd.size),
    ("category_list_begin", tree.categoryBegin.size),
    ("category_list_end", tree.categoryEnd.size),
    ("data_count", tree.dataCount.size),
    ("data_count_present", tree.hasDataCount.size),
    ("sum_hess", tree.sumHess.size),
    ("sum_hess_present", tree.hasSumHess.size),
    ("gain", tree.gain.size),
    ("gain_present", tree.hasGain.size)]

/-- Every column has one entry for each node. -/
def checkColumnSizes (tree : Tree T L) : Result Unit :=
  match tree.columnSizes.find? fun column => column.2 != tree.nodeCount with
  | some (column, size) => .error (.format (.columnLength column size tree.nodeCount))
  | none => .ok ()

/-- One node through all columns; nothing if a column or a store does not reach it. -/
def node? (tree : Tree T L) (nid : Nat) : Option (Node T L) := do
  return {
    kind := ← tree.kind[nid]?
    left := ← tree.left[nid]?
    right := ← tree.right[nid]?
    feature := (← tree.feature[nid]?).toUInt32
    defaultLeft := ← tree.defaultLeft[nid]?
    threshold := ← tree.threshold[nid]?
    comparison := ← tree.comparison[nid]?
    leafValue := ← tree.leafValue[nid]?
    leafVector := ← storeRange? tree.leafStore (← tree.leafBegin[nid]?) (← tree.leafEnd[nid]?)
    categories :=
      ← storeRange? tree.categoryStore (← tree.categoryBegin[nid]?) (← tree.categoryEnd[nid]?)
    matchGoesRight := ← tree.matchGoesRight[nid]?
    dataCount := ← recorded? tree.hasDataCount tree.dataCount nid
    sumHess := ← recorded? tree.hasSumHess tree.sumHess nid
    gain := ← recorded? tree.hasGain tree.gain nid
  }

/-- The nodes that the tree shows, in order. -/
def nodes (tree : Tree T L) : List (Node T L) := (List.range tree.nodeCount).filterMap tree.node?

/-- Whether two columns of numbers agree entry by entry. -/
def columnsAgree {α : Type} [Numeric α] (xs ys : Array α) : Bool :=
  xs.size == ys.size && (xs.zip ys).all fun pair => Numeric.agrees pair.1 pair.2

/-- Equality of all columns, numbers compared as numbers: the two zeros agree, and a word that is
not a number differs from itself. -/
def agrees [Numeric T] [Numeric L] (a b : Tree T L) : Bool :=
  a.numNodes == b.numNodes && a.hasCategoricalSplit == b.hasCategoricalSplit &&
  a.kind == b.kind && a.left == b.left && a.right == b.right && a.feature == b.feature &&
  a.defaultLeft == b.defaultLeft && columnsAgree a.leafValue b.leafValue &&
  columnsAgree a.threshold b.threshold && a.comparison == b.comparison &&
  a.matchGoesRight == b.matchGoesRight && columnsAgree a.leafStore b.leafStore &&
  a.leafBegin == b.leafBegin && a.leafEnd == b.leafEnd && a.categoryStore == b.categoryStore &&
  a.categoryBegin == b.categoryBegin && a.categoryEnd == b.categoryEnd &&
  a.dataCount == b.dataCount && a.hasDataCount == b.hasDataCount &&
  columnsAgree a.sumHess b.sumHess && a.hasSumHess == b.hasSumHess &&
  columnsAgree a.gain b.gain && a.hasGain == b.hasGain &&
  a.treeOptionalFields == b.treeOptionalFields && a.nodeOptionalFields == b.nodeOptionalFields

end Tree

end Arboretum

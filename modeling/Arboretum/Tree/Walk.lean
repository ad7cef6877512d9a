import Arboretum.Tree.Basic

/-!
Following a row of features from the root to a leaf. A missing feature goes to the default child,
a number is compared with the threshold or looked up among the categories.
-/

namespace Arboretum

/-- Binary search for a value in the part of an ascending array between two positions. -/
def containsBetween (xs : Array UInt32) (value : UInt32) (first last : Nat) : Bool :=
  if first < last then
    let middle := (first + last) / 2
    match xs[middle]? with
    | none => false
    | some x =>
      if x = value then true
      else if x < value then containsBetween xs value (middle + 1) last
      else containsBetween xs value first middle
  else false
termination_by last - first

def containsSorted (xs : Array UInt32) (value : UInt32) : Bool :=
  containsBetween xs value 0 xs.size

/-- Whether a feature value names one of the ascending categories: it has to be a natural number
that fits 32 bits and that its type tells apart from its neighbours. -/
def categoryMatches {α : Type} [FloatWord α] (value : α) (categories : Array UInt32) : Bool :=
  match FloatWord.toNat? value with
  | none => false
  | some n =>
    n ≤ min (UInt32.size - 1) (Nat.pow 2 (FloatWord.format α).precision) &&
      containsSorted categories (.ofNat n)

namespace Node

variable {T L α : Type} [Numeric T] [Score α]

def childFor (node : Node T L) (value : α) : Int32 :=
  if FloatWord.isNaN value then node.defaultChild
  else
    let goesLeft :=
      if node.kind = .categoricalTest then
        categoryMatches value node.categories != node.matchGoesRight
      else node.comparison.holds value (Numeric.cast node.threshold)
    if goesLeft then node.left else node.right

end Node

namespace Tree

variable {T L α : Type} [Numeric T] [Score α]

/-- The leaf below a node that a row reaches within a number of steps; nothing if it leaves the
tree or the row. -/
def leafBelow? (tree : Tree T L) (row : Array α) : Nat → Nat → Option Nat
  | 0, nid =>
    match tree.node? nid with
    | some node => if node.isLeaf then some nid else none
    | none => none
  | steps + 1, nid =>
    match tree.node? nid with
    | none => none
    | some node =>
      if node.isLeaf then some nid
      else
        match row[node.feature.toNat]? with
        | none => none
        | some value =>
          let child := node.childFor value
          if child < 0 then none else tree.leafBelow? row steps child.toInt.toNat

/-- The leaf that a row reaches. No path is longer than the tree has nodes. -/
def leafOf? (tree : Tree T L) (row : Array α) : Option Nat :=
  tree.leafBelow? row tree.nodeCount 0

end Tree

end Arboretum

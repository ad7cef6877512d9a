import Arboretum.Tree.Basic

/-!
The check that columns form a tree: every column has one entry for each node, every range lies in
its store, every node is a leaf without children or a test with two of them, and a walk from the
root meets every node exactly once.
-/

namespace Arboretum

namespace Tree

variable {T L : Type}

def checkRange (nid : Nat) (store : NodeStore) (first last : UInt64) (size : Nat) : Result Unit :=
  require (first ≤ last ∧ last.toNat ≤ size)
    (.structural (.badRange nid store first.toNat last.toNat))

/-- A node by itself: its ranges, its children and its kind. -/
def checkLocal (tree : Tree T L) (nid : Nat) : Result Unit := do
  checkRange nid .leafVector (tree.leafBegin.getD nid 0) (tree.leafEnd.getD nid 0)
    tree.leafStore.size
  checkRange nid .categoryList (tree.categoryBegin.getD nid 0) (tree.categoryEnd.getD nid 0)
    tree.categoryStore.size
  let left := tree.left.getD nid noChild
  let right := tree.right.getD nid noChild
  let kind := tree.kind.getD nid .leaf
  require (left = noChild ↔ right = noChild)
    (.structural (.oneChild nid left.toInt right.toInt))
  require (left < tree.numNodes ∧ right < tree.numNodes ∧ noChild ≤ left ∧ noChild ≤ right)
    (.structural (.childOutOfRange nid))
  require (kind = .leaf ↔ left = noChild)
    (.structural (.kindMismatch nid kind left.toInt right.toInt))

/-- Walk the nodes on the stack and everything below them, left before right, and mark each. A
node that is met again ends the walk. Every step marks one more node, so one step more than there
are nodes is enough. -/
def mark (tree : Tree T L) : Nat → List Nat → Array Bool → Result (Array Bool)
  | _, [], visited => .ok visited
  | 0, _, visited => .ok visited
  | steps + 1, nid :: stack, visited =>
    if visited.getD nid false then .error (.structural (.reachedTwice nid))
    else
      let left := tree.left.getD nid noChild
      let right := tree.right.getD nid noChild
      let visited := visited.setIfInBounds nid true
      if left = noChild then tree.mark steps stack visited
      else tree.mark steps (left.toInt.toNat :: right.toInt.toNat :: stack) visited

/-- Every node is reached from the root along exactly one path. -/
def checkSingleRooted (tree : Tree T L) : Result Unit := do
  let visited ← tree.mark (tree.nodeCount + 1) [0] (Array.replicate tree.nodeCount false)
  match visited.findIdx? fun seen => !seen with
  | some nid => throw (.structural (.orphan nid))
  | none => return ()

/-- Check that the columns form a single tree rooted at node 0, or none at all. -/
def validate (tree : Tree T L) : Result Unit := do
  require (0 ≤ tree.numNodes) (.structural (.negativeNodeCount tree.numNodes.toInt))
  tree.checkColumnSizes
  (List.range tree.nodeCount).forM tree.checkLocal
  if 0 < tree.nodeCount then tree.checkSingleRooted

end Tree

end Arboretum

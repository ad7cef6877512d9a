import Arboretum.Proofs.Tree.Walk

/-!
The check of a tree looks at nothing that is not there, and its walk ends by itself. The walk is
written with a default for entries that are missing and with a limit for its steps; here it is
written so that it gives nothing where it would need one of them, and the two are equal as soon as
the columns have their sizes and the children are in range.
-/

namespace Arboretum.Tree

variable {T L : Type}

/-- The walk that marks all nodes; nothing if it looks beside a column or needs another step. -/
def mark? (tree : Tree T L) : Nat → List Nat → Array Bool → Option (Result (Array Bool))
  | _, [], visited => some (.ok visited)
  | 0, _ :: _, _ => none
  | steps + 1, nid :: stack, visited => do
    if ← visited[nid]? then some (.error (.structural (.reachedTwice nid)))
    else
      let left ← tree.left[nid]?
      let right ← tree.right[nid]?
      let visited := visited.setIfInBounds nid true
      if left = noChild then tree.mark? steps stack visited
      else tree.mark? steps (left.toInt.toNat :: right.toInt.toNat :: stack) visited

/-- Every step marks one more node, and only nodes come to the stack. -/
theorem mark?_eq {tree : Tree T L} (hc : tree.Checked) {steps : Nat} {stack : List Nat}
    {visited : Array Bool} (hsize : visited.size = tree.nodeCount)
    (hcount : visited.count false < steps) (hstack : ∀ nid ∈ stack, nid < tree.nodeCount) :
    tree.mark? steps stack visited = some (tree.mark steps stack visited) := by
  induction steps generalizing stack visited with
  | zero => exact absurd hcount (Nat.not_lt_zero _)
  | succ steps ih =>
    cases stack with
    | nil => rfl
    | cons nid stack =>
      have hn : nid < tree.nodeCount := hstack nid List.mem_cons_self
      have hrest : ∀ m ∈ stack, m < tree.nodeCount := fun m hm =>
        hstack m (List.mem_cons_of_mem _ hm)
      obtain ⟨node, hnode⟩ := exists_node hc.columnar hn (hc.sound nid hn)
      obtain ⟨-, hleft, hright, -⟩ := node?_eq_some_iff.mp hnode
      have hvisited : nid < visited.size := hsize ▸ hn
      have hget : visited.getD nid false = visited[nid] := by
        rw [getD_of_getElem? (Array.getElem?_eq_getElem hvisited)]
      rw [mark?, mark, hget, getD_left hnode, getD_right hnode, Array.getElem?_eq_getElem hvisited]
      cases hseen : visited[nid] with
      | true => rfl
      | false =>
        have hmarked := count_marked hvisited hseen
        have hsize' : (visited.setIfInBounds nid true).size = tree.nodeCount := by
          rw [Array.size_setIfInBounds, hsize]
        simp only [hleft, hright, Option.bind_eq_bind, Option.bind_some, Bool.false_eq_true,
          if_false]
        by_cases hleaf : node.left = noChild
        · rw [if_pos hleaf, if_pos hleaf]
          exact ih hsize' (by omega) hrest
        · rw [if_neg hleaf, if_neg hleaf]
          refine ih hsize' (by omega) ?_
          rw [List.forall_mem_cons, List.forall_mem_cons]
          obtain ⟨hl, hr⟩ := children_lt (hc.sound nid hn) hnode hleaf
          exact ⟨hl.2, hr.2, hrest⟩

/-- What the check of a tree looks at is there, part by part, and its walk ends by itself. -/
structure ChecksInRange (tree : Tree T L) : Prop where
  /-- Behind the check of the columns, each of them has an entry for every node. -/
  columns : tree.checkColumnSizes = .ok () →
    ∀ nid < tree.nodeCount, ∀ column ∈ tree.columnSizes, nid < column.2
  /-- Behind the check of the nodes, the walk from the root stays among them. -/
  marking : tree.checkColumnSizes = .ok () →
    (∀ nid < tree.nodeCount, tree.checkLocal nid = .ok ()) → 0 < tree.nodeCount →
    tree.mark? (tree.nodeCount + 1) [0] (Array.replicate tree.nodeCount false) =
      some (tree.mark (tree.nodeCount + 1) [0] (Array.replicate tree.nodeCount false))

theorem checksInRange (tree : Tree T L) : tree.ChecksInRange := by
  constructor
  · intro hcolumns nid hn column hcolumn
    rw [checkColumnSizes_eq_ok.mp hcolumns column hcolumn]
    exact hn
  · intro hcolumns hnodes hpos
    have hc : tree.Checked :=
      ⟨checkColumnSizes_eq_ok.mp hcolumns, fun nid hn => checkLocal_eq_ok.mp (hnodes nid hn)⟩
    refine mark?_eq hc Array.size_replicate ?_ ?_
    · rw [Array.count_replicate_self]
      exact Nat.lt_succ_self _
    · intro nid hnid
      rwa [List.mem_singleton.mp hnid]

end Arboretum.Tree

import Arboretum.Proofs.Tree.NodeEdits

/-!
Pointing many nodes at their children, one after another. Where it succeeds, the nodes that were
named point at the children that were named for them, and nothing else has changed.
-/

namespace Arboretum.Tree

variable {T L : Type}

theorem node?_link_self {tree : Tree T L} {nid : Nat} {node : Node T L}
    (h : tree.node? nid = some node) (left right : Nat) : (tree.link nid left right).node? nid =
      some { node with left := .ofNat left, right := .ofNat right } := by
  obtain ⟨hkind, hleft, hright, hrest⟩ := node?_eq_some_iff.mp h
  exact node?_eq_some_iff.mpr ⟨hkind, getElem?_set_self hleft, getElem?_set_self hright, hrest⟩

theorem node?_link_other {tree : Tree T L} {nid m : Nat} {node : Node T L} (hm : m ≠ nid)
    (h : tree.node? m = some node) (left right : Nat) :
    (tree.link nid left right).node? m = some node := by
  obtain ⟨hkind, hleft, hright, hrest⟩ := node?_eq_some_iff.mp h
  exact node?_eq_some_iff.mpr
    ⟨hkind, getElem?_set_other hm hleft, getElem?_set_other hm hright, hrest⟩

def linkAll (tree : Tree T L) (links : List (Nat × Nat × Nat)) : Tree T L :=
  links.foldl (fun tree (nid, left, right) => tree.link nid left right) tree

theorem setChildren_leads (tree : Tree T L) (nid left right : Nat) :
    (setChildren nid left right : Edit (Tree T L) Unit).Leads tree fun _ after =>
      nid < tree.nodeCount ∧ left < tree.nodeCount ∧ right < tree.nodeCount ∧
        after = tree.link nid left right := by
  rw [setChildren]
  exact checkNode_leads fun hnid => checkNode_leads fun hleft => checkNode_leads fun hright =>
    .of_eq rfl ⟨hnid, hleft, hright, rfl⟩

theorem apply_setAllChildren {links : List (Nat × Nat × Nat)} {tree after : Tree T L}
    (h : (setAllChildren links).apply tree = (.ok (), after)) : after = tree.linkAll links := by
  induction links generalizing tree with
  | nil =>
    cases h
    rfl
  | cons entry links ih =>
    obtain ⟨nid, left, right⟩ := entry
    rw [setAllChildren, List.forM_eq_forM, List.forM_cons, Edit.apply_bind_eq_ok] at h
    obtain ⟨_, middle, hfirst, hrest⟩ := h
    obtain ⟨-, -, -, rfl⟩ := (setChildren_leads tree nid left right).goal_of_ok hfirst
    exact ih hrest

theorem linkAll_eq (links : List (Nat × Nat × Nat)) (tree : Tree T L) :
    ∃ left right, tree.linkAll links = { tree with left := left, right := right } := by
  induction links generalizing tree with
  | nil => exact ⟨tree.left, tree.right, rfl⟩
  | cons entry links ih =>
    obtain ⟨nid, l, r⟩ := entry
    obtain ⟨left, right, h⟩ := ih (tree.link nid l r)
    exact ⟨left, right, h⟩

theorem nodeCount_linkAll (links : List (Nat × Nat × Nat)) (tree : Tree T L) :
    (tree.linkAll links).nodeCount = tree.nodeCount := by
  obtain ⟨left, right, h⟩ := linkAll_eq links tree
  rw [h]
  rfl

theorem columnar_linkAll {tree : Tree T L} (links : List (Nat × Nat × Nat)) (hc : tree.Columnar) :
    (tree.linkAll links).Columnar := by
  induction links generalizing tree with
  | nil => exact hc
  | cons entry links ih =>
    refine ih ?_
    simpa [Columnar, columnSizes, nodeCount, link] using hc

theorem node?_linkAll_other {links : List (Nat × Nat × Nat)} {tree : Tree T L} {i : Nat}
    {node : Node T L} (hnode : tree.node? i = some node) (h : ∀ entry ∈ links, entry.1 ≠ i) :
    (tree.linkAll links).node? i = some node := by
  induction links generalizing tree with
  | nil => exact hnode
  | cons entry links ih =>
    obtain ⟨hne, hrest⟩ := List.forall_mem_cons.mp h
    exact ih (node?_link_other (Ne.symm hne) hnode _ _) hrest

/-- A node for which the same children are named wherever it is named at all points at them. -/
theorem node?_linkAll {links : List (Nat × Nat × Nat)} {tree : Tree T L} {i left right : Nat}
    {node : Node T L} (hnode : tree.node? i = some node) (hmem : (i, left, right) ∈ links)
    (h : ∀ entry ∈ links, entry.1 = i → entry = (i, left, right)) :
    (tree.linkAll links).node? i =
      some { node with left := .ofNat left, right := .ofNat right } := by
  induction links generalizing tree node with
  | nil => cases hmem
  | cons entry links ih =>
    obtain ⟨hentry, hrest⟩ := List.forall_mem_cons.mp h
    by_cases hi : entry.1 = i
    · obtain rfl := hentry hi
      have hself := node?_link_self hnode left right
      by_cases hagain : (i, left, right) ∈ links
      · exact (ih hself hagain hrest :)
      · have hlater : ∀ entry ∈ links, entry.1 ≠ i := by
          intro entry hin hne
          rw [hrest entry hin hne] at hin
          exact hagain hin
        exact (node?_linkAll_other hself hlater :)
    · have hin : (i, left, right) ∈ links := by
        rcases List.mem_cons.mp hmem with rfl | hin
        · exact absurd rfl hi
        · exact hin
      exact ih (node?_link_other (Ne.symm hi) hnode _ _) hin hrest

end Arboretum.Tree

import Arboretum.Proofs.Tree.Linking

/-!
When the edits of a tree go through. An edit of a node asks for the node, a test for a feature
below the bound, and a test for membership for a node without categories behind it; nothing else
can stop them.
-/

namespace Arboretum.Tree

open Edit (Succeeds)

variable {T L α : Type} {tree : Tree T L} {nid : Nat}

theorem checkNode_succeeds {next : Unit → Edit (Tree T L) α} (hnid : nid < tree.nodeCount)
    (h : (next ()).Succeeds tree) : (checkNode nid >>= next).Succeeds tree := by
  obtain ⟨a, after, ha⟩ := h
  refine ⟨a, after, Edit.apply_bind_eq_ok.mpr ⟨(), tree, ?_, ha⟩⟩
  rw [checkNode, Edit.apply_bind, Edit.apply_get]
  exact Prod.ext (require_eq_ok.mpr hnid) rfl

theorem modify_succeeds (hnid : nid < tree.nodeCount) (change : Tree T L → Tree T L) :
    (checkNode nid >>= fun _ => modify change : Edit (Tree T L) Unit).Succeeds tree :=
  checkNode_succeeds hnid ⟨(), change tree, rfl⟩

theorem setNumericalSplit_succeeds (hnid : nid < tree.nodeCount) {feature : UInt32}
    (hfeature : feature < featureBound) (threshold : T) (defaultLeft : Bool)
    (comparison : Comparison) :
    (setNumericalSplit nid feature threshold defaultLeft comparison).Succeeds tree := by
  rw [setNumericalSplit]
  exact checkNode_succeeds hnid (.require_bind hfeature ⟨_, _, rfl⟩)

private theorem laterCategories?_last (hlast : nid + 1 = tree.nodeCount) :
    tree.laterCategories? nid = none := by
  rw [laterCategories?, List.find?_eq_none]
  intro later hlater
  rw [List.mem_range] at hlater
  have hnot : ¬ nid < later := by omega
  simp [hnot]

theorem setCategoricalSplit_succeeds (hlast : nid + 1 = tree.nodeCount) {feature : UInt32}
    (hfeature : feature < featureBound) (defaultLeft : Bool) (categories : List UInt32)
    (matchGoesRight : Bool) :
    (setCategoricalSplit nid feature defaultLeft categories matchGoesRight).Succeeds tree := by
  rw [setCategoricalSplit]
  refine checkNode_succeeds (by omega) (.require_bind hfeature (.get_bind ?_))
  rw [laterCategories?_last hlast]
  exact ⟨_, _, rfl⟩

private theorem setChildren_succeeds {left right : Nat} (hnid : nid < tree.nodeCount)
    (hleft : left < tree.nodeCount) (hright : right < tree.nodeCount) :
    (setChildren nid left right).Succeeds tree := by
  rw [setChildren]
  exact checkNode_succeeds hnid (checkNode_succeeds hleft (modify_succeeds hright _))

/-- Nodes that are there can be pointed at each other. -/
theorem setAllChildren_succeeds {links : List (Nat × Nat × Nat)}
    (h : ∀ entry ∈ links, entry.1 < tree.nodeCount ∧ entry.2.1 < tree.nodeCount ∧
      entry.2.2 < tree.nodeCount) : (setAllChildren links).Succeeds tree := by
  induction links generalizing tree with
  | nil => exact ⟨(), tree, rfl⟩
  | cons entry links ih =>
    obtain ⟨nid, left, right⟩ := entry
    obtain ⟨⟨hnid, hleft, hright⟩, hrest⟩ := List.forall_mem_cons.mp h
    rw [setAllChildren, List.forM_eq_forM, List.forM_cons]
    refine .bind (setChildren_succeeds hnid hleft hright) fun _ after hafter => ih ?_
    obtain ⟨-, -, -, rfl⟩ := (setChildren_leads tree nid left right).goal_of_ok hafter
    exact hrest

end Arboretum.Tree

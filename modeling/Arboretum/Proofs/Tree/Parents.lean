import Arboretum.Proofs.Tree.Paths
import Mathlib.Data.List.Induction
import Mathlib.Data.List.Nodup

/-!
A tree told by its parents. Every node is at the end of exactly one path from the root if and only
if the root is nobody's child, every other node is a child exactly once, and the root reaches all
nodes. None of the three can be left out: nodes on a cycle apart from the root are children exactly
once as well.
-/

namespace Arboretum

private theorem countP_eq_one_iff {α : Type _} {l : List α} (hl : l.Nodup) (p : α → Bool) :
    l.countP p = 1 ↔ ∃! a, a ∈ l ∧ p a = true := by
  rw [List.countP_eq_length_filter, List.length_eq_one_iff]
  constructor
  · rintro ⟨a, ha⟩
    have hmem : ∀ b, b ∈ l ∧ p b = true ↔ b = a := by
      intro b
      rw [← List.mem_filter, ha, List.mem_singleton]
    exact ⟨a, (hmem a).mpr rfl, fun b hb => (hmem b).mp hb⟩
  · rintro ⟨a, ha, hunique⟩
    refine ⟨a, List.perm_singleton.mp ?_⟩
    refine (List.perm_ext_iff_of_nodup (hl.filter p) (List.nodup_singleton a)).mpr fun b => ?_
    rw [List.mem_filter, List.mem_singleton]
    exact ⟨hunique b, fun hb => hb ▸ ha⟩

namespace Tree

variable {T L : Type} {tree : Tree T L} {nid : Nat}

/-- The children of all nodes, each as often as it is one. -/
def childUses (tree : Tree T L) : List Nat := (List.range tree.nodeCount).flatMap tree.below

def stepsFrom (tree : Tree T L) : List (Nat × Side) :=
  List.product (List.range tree.nodeCount) [.left, .right]

theorem childUses_eq :
    tree.childUses = tree.stepsFrom.filterMap fun step => tree.child? step.1 step.2 := by
  rw [stepsFrom, List.product, List.filterMap_flatMap]
  simp only [List.filterMap_map]
  rfl

private theorem mem_stepsFrom {step : Nat × Side} :
    step ∈ tree.stepsFrom ↔ step.1 < tree.nodeCount := by
  rw [stepsFrom, List.pair_mem_product, List.mem_range, and_iff_left]
  cases step.2 <;> simp

private theorem mem_childUses : nid ∈ tree.childUses ↔
    ∃ parent < tree.nodeCount, ∃ side, tree.child? parent side = some nid := by
  simp only [childUses, List.mem_flatMap, List.mem_range, mem_below]

/-- A node that is a child exactly once has one parent and stands on one side of it. -/
theorem count_childUses_eq_one : tree.childUses.count nid = 1 ↔
    ∃! step : Nat × Side, step.1 < tree.nodeCount ∧ tree.child? step.1 step.2 = some nid := by
  have hdistinct : tree.stepsFrom.Nodup := .product List.nodup_range (by decide)
  rw [childUses_eq, List.count_filterMap, countP_eq_one_iff hdistinct]
  simp only [mem_stepsFrom, beq_iff_eq]

/-- From a root without parent there is one path at most to a node, when the others have one parent
each. The induction takes the last step off both paths. -/
theorem straight_of_parents (hc : tree.Checked) (hpos : 0 < tree.nodeCount)
    (hroot : 0 ∉ tree.childUses)
    (honce : ∀ nid < tree.nodeCount, 0 < nid → tree.childUses.count nid = 1) (goal : Nat) :
    tree.Straight 0 goal := by
  have hempty : ∀ path, tree.follow? path 0 = some 0 → path = [] := by
    intro path hpath
    rcases List.eq_nil_or_concat' path with rfl | ⟨path, side, rfl⟩
    · rfl
    · obtain ⟨parent, hparent, hchild⟩ := follow?_concat_eq_some.mp hpath
      exact absurd (mem_childUses.mpr ⟨parent, hc.follow?_lt hpos hparent, side, hchild⟩) hroot
  intro p q hp hq
  induction p using List.reverseRecOn generalizing goal q with
  | nil =>
    cases hp
    exact (hempty q hq).symm
  | append_singleton p side ih =>
    rcases List.eq_nil_or_concat' q with rfl | ⟨q, other, rfl⟩
    · cases hq
      exact hempty _ hp
    · have hgoal : 0 < goal := by
        rw [Nat.pos_iff_ne_zero]
        rintro rfl
        exact absurd (hempty _ hp) (by simp)
      have hone := honce goal (hc.follow?_lt hpos hp) hgoal
      obtain ⟨a, ha, hchild⟩ := follow?_concat_eq_some.mp hp
      obtain ⟨b, hb, hchild'⟩ := follow?_concat_eq_some.mp hq
      have hsame : (a, side) = (b, other) := (count_childUses_eq_one.mp hone).unique
        ⟨hc.follow?_lt hpos ha, hchild⟩ ⟨hc.follow?_lt hpos hb, hchild'⟩
      cases hsame
      rw [ih a q ha hb]

/-- Every node is at the end of one path from the root, told by parents. -/
theorem existsUnique_path_iff (hc : tree.Checked) (hpos : 0 < tree.nodeCount) :
    (∀ nid < tree.nodeCount, ∃! path, tree.follow? path 0 = some nid) ↔
      0 ∉ tree.childUses ∧
      (∀ nid < tree.nodeCount, 0 < nid → tree.childUses.count nid = 1) ∧
      ∀ nid < tree.nodeCount, tree.Reaches 0 nid := by
  constructor
  · intro h
    refine ⟨fun hroot => ?_, fun nid hnid hne => ?_, fun nid hnid => (h nid hnid).exists⟩
    · obtain ⟨parent, hparent, side, hchild⟩ := mem_childUses.mp hroot
      obtain ⟨path, hpath, -⟩ := h parent hparent
      have hagain : [] = path ++ [side] := (h 0 hpos).unique rfl
        (follow?_concat_eq_some.mpr ⟨parent, hpath, hchild⟩)
      simp at hagain
    · obtain ⟨path, hpath, hunique⟩ := h nid hnid
      rcases List.eq_nil_or_concat' path with rfl | ⟨path, side, rfl⟩
      · cases hpath
        exact absurd hne (Nat.lt_irrefl 0)
      · obtain ⟨parent, hparent, hchild⟩ := follow?_concat_eq_some.mp hpath
        refine count_childUses_eq_one.mpr
          ⟨(parent, side), ⟨hc.follow?_lt hpos hparent, hchild⟩, ?_⟩
        rintro ⟨other, side'⟩ ⟨hother, hchild'⟩
        obtain ⟨route, hroute, -⟩ := h other hother
        have heq := hunique _ (follow?_concat_eq_some.mpr ⟨other, hroute, hchild'⟩)
        obtain ⟨rfl, hsides⟩ := List.append_inj' heq rfl
        cases hsides
        cases hparent.symm.trans hroute
        rfl
  · rintro ⟨hroot, honce, hreach⟩ nid hnid
    obtain ⟨path, hpath⟩ := hreach nid hnid
    exact ⟨path, hpath, fun other hother =>
      straight_of_parents hc hpos hroot honce nid other path hother hpath⟩

end Tree

end Arboretum

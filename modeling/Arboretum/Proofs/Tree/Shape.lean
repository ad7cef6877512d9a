import Arboretum.Proofs.Tree.Paths

/-!
What the check of a tree decides. It accepts the columns that describe one tree rooted at node 0, or
none at all, and refuses all others; on whatever columns, it comes to an end.
-/

namespace Arboretum.Tree

variable {T L : Type} {tree : Tree T L}

/-- A leaf has no child, and a test has two nodes of the tree. -/
def ShapeFits (tree : Tree T L) (kind : NodeKind) (left right : Int32) : Prop :=
  kind = .leaf ∧ left = noChild ∧ right = noChild ∨
    kind ≠ .leaf ∧ tree.HasNode left ∧ tree.HasNode right

/-- Columns that describe a single tree rooted at node 0, or no node at all. -/
structure IsTree (tree : Tree T L) : Prop where
  numNodes_nonneg : 0 ≤ tree.numNodes
  /-- Each of the columns with one entry for a node has as many entries as there are nodes. -/
  columnar : tree.Columnar
  /-- The ranges of all nodes lie in the stores of leaf vectors and categories. -/
  ranges : tree.RangesFit
  shapes : ∀ (nid : Nat) (kind : NodeKind) (left right : Int32), tree.kind[nid]? = some kind →
    tree.left[nid]? = some left → tree.right[nid]? = some right → tree.ShapeFits kind left right
  /-- Exactly one path leads from the root to each node. -/
  path : ∀ nid < tree.nodeCount, ∃! path, tree.follow? path 0 = some nid

/-- The children that the check of a node asks for, and a kind that goes with them. -/
theorem shapeFits_iff (hpos : 0 ≤ tree.numNodes) {kind : NodeKind} {left right : Int32} :
    tree.ShapeFits kind left right ↔
      (left = noChild ↔ right = noChild) ∧
      (left < tree.numNodes ∧ right < tree.numNodes ∧ noChild ≤ left ∧ noChild ≤ right) ∧
      (kind = .leaf ↔ left = noChild) := by
  constructor
  · rintro (⟨rfl, rfl, rfl⟩ | ⟨hkind, hleft, hright⟩)
    · obtain ⟨hlt, hle⟩ :=
        inRange_of_hasNode hpos (.inl rfl : noChild = noChild ∨ tree.HasNode noChild)
      exact ⟨Iff.rfl, ⟨hlt, hlt, hle, hle⟩, by simp⟩
    · obtain ⟨hl, hlow⟩ := inRange_of_hasNode hpos (.inr hleft)
      obtain ⟨hr, hlow'⟩ := inRange_of_hasNode hpos (.inr hright)
      exact ⟨iff_of_false hleft.ne_noChild hright.ne_noChild, ⟨hl, hr, hlow, hlow'⟩,
        iff_of_false hkind hleft.ne_noChild⟩
  · rintro ⟨hboth, ⟨hl, hr, hlow, hlow'⟩, hkind⟩
    by_cases hleaf : left = noChild
    · exact .inl ⟨hkind.mpr hleaf, hleaf, hboth.mp hleaf⟩
    · exact .inr ⟨mt hkind.mp hleaf, child_lt hlow hl hleaf,
        child_lt hlow' hr (mt hboth.mpr hleaf)⟩

/-- The check of all nodes, column by column. -/
theorem forall_soundAt_iff (hpos : 0 ≤ tree.numNodes) (hc : tree.Columnar) :
    (∀ nid < tree.nodeCount, tree.SoundAt nid) ↔
      tree.RangesFit ∧ ∀ (nid : Nat) (kind : NodeKind) (left right : Int32),
        tree.kind[nid]? = some kind → tree.left[nid]? = some left →
        tree.right[nid]? = some right → tree.ShapeFits kind left right := by
  have columns := hc.columns
  constructor
  · intro h
    refine ⟨⟨fun nid first last hfirst hlast => ?_, fun nid first last hfirst hlast => ?_⟩,
      fun nid kind left right hkind hleft hright => ?_⟩
    · have hs := (h nid (lt_of_getElem? columns.leafBegin hfirst)).leafRange
      rwa [getD_of_getElem? hfirst, getD_of_getElem? hlast] at hs
    · have hs := (h nid (lt_of_getElem? columns.categoryBegin hfirst)).categoryRange
      rwa [getD_of_getElem? hfirst, getD_of_getElem? hlast] at hs
    · obtain ⟨-, -, hboth, hrange, hfits⟩ := h nid (lt_of_getElem? columns.kind hkind)
      rw [getD_of_getElem? hleft, getD_of_getElem? hright] at hboth hrange
      rw [getD_of_getElem? hkind, getD_of_getElem? hleft] at hfits
      exact (shapeFits_iff hpos).mpr ⟨hboth, hrange, hfits⟩
  · rintro ⟨hranges, hshapes⟩ nid hnid
    obtain ⟨hleaf, hcategory⟩ := hranges.at hc hnid
    obtain ⟨kind, hkind⟩ := exists_entry columns.kind hnid
    obtain ⟨left, hleft⟩ := exists_entry columns.left hnid
    obtain ⟨right, hright⟩ := exists_entry columns.right hnid
    obtain ⟨hboth, hrange, hfits⟩ :=
      (shapeFits_iff hpos).mp (hshapes nid kind left right hkind hleft hright)
    refine ⟨hleaf, hcategory, ?_, ?_, ?_⟩
    · rwa [getD_of_getElem? hleft, getD_of_getElem? hright]
    · rwa [getD_of_getElem? hleft, getD_of_getElem? hright]
    · rwa [getD_of_getElem? hkind, getD_of_getElem? hleft]

/-- The check for a single root decides whether every node has exactly one path. -/
theorem checkSingleRooted_eq_ok (hc : tree.Checked) (hpos : 0 < tree.nodeCount) :
    tree.checkSingleRooted = .ok () ↔
      ∀ nid < tree.nodeCount, ∃! path, tree.follow? path 0 = some nid := by
  rcases checkSingleRooted_outcome hc hpos with
    ⟨hok, hpath⟩ | ⟨nid, hnid, herror, p, q, hne, hp, hq⟩ | ⟨nid, hnid, herror, hnone⟩
  · exact iff_of_true hok hpath
  · refine iff_of_false (by rw [herror]; simp) fun h => ?_
    exact hne ((h nid hnid).unique hp hq)
  · refine iff_of_false (by rw [herror]; simp) fun h => ?_
    obtain ⟨path, hpath, -⟩ := h nid hnid
    exact hnone path hpath

/-- The check accepts a tree and nothing else. It looks at no entry that is not there, and its walk
ends by itself, on columns of any contents. -/
theorem validate_decides (tree : Tree T L) :
    (tree.validate = .ok () ↔ tree.IsTree) ∧ tree.ChecksInRange := by
  refine ⟨?_, tree.checksInRange⟩
  rw [validate_eq_ok]
  constructor
  · rintro ⟨hpos, hcolumnar, hsound, hrooted⟩
    obtain ⟨hranges, hshapes⟩ := (forall_soundAt_iff hpos hcolumnar).mp hsound
    refine ⟨hpos, hcolumnar, hranges, hshapes, fun nid hnid => ?_⟩
    have hnonempty : 0 < tree.nodeCount := Nat.zero_lt_of_lt hnid
    exact (checkSingleRooted_eq_ok ⟨hcolumnar, hsound⟩ hnonempty).mp (hrooted hnonempty) nid hnid
  · rintro ⟨hpos, hcolumnar, hranges, hshapes, hpath⟩
    have hsound := (forall_soundAt_iff hpos hcolumnar).mpr ⟨hranges, hshapes⟩
    exact ⟨hpos, hcolumnar, hsound, fun hnonempty =>
      (checkSingleRooted_eq_ok ⟨hcolumnar, hsound⟩ hnonempty).mpr hpath⟩

end Arboretum.Tree

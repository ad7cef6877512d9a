import Arboretum.Proofs.Tree.Stores

/-!
Trees that differ in the numbers of their nodes. The numbering of one is carried to that of the
other by a bijection that keeps the root, and every node says the same at both places, its
statistics aside. Such trees pass the same checks, and a row is led to the same leaf in both.
-/

namespace Arboretum

variable {T L α : Type} {σ τ : Nat → Nat}

/-- The number of a child under another numbering. -/
def renumber (σ : Nat → Nat) (child : Int32) : Int32 :=
  if child = noChild then noChild else .ofNat (σ child.toInt.toNat)

private theorem renumber_noChild : renumber σ noChild = noChild := if_pos rfl

/-- Two nodes that say the same under two numberings. Statistics are not compared. -/
structure Node.Alike (σ : Nat → Nat) (node other : Node T L) : Prop where
  kind : other.kind = node.kind
  left : other.left = renumber σ node.left
  right : other.right = renumber σ node.right
  feature : other.feature = node.feature
  defaultLeft : other.defaultLeft = node.defaultLeft
  threshold : other.threshold = node.threshold
  comparison : other.comparison = node.comparison
  leafValue : other.leafValue = node.leafValue
  leafVector : other.leafVector = node.leafVector
  categories : other.categories = node.categories
  matchGoesRight : other.matchGoesRight = node.matchGoesRight

theorem Node.Alike.hasLeafVector {node other : Node T L} (h : node.Alike σ other) :
    other.hasLeafVector = node.hasLeafVector := by
  rw [Node.hasLeafVector, h.leafVector, Node.hasLeafVector]

/-- A feature value takes both nodes to the same child. -/
theorem Node.Alike.childFor [Numeric T] [Score α] {node other : Node T L} (h : node.Alike σ other)
    (value : α) : other.childFor value = renumber σ (node.childFor value) := by
  have hside : ∀ goesLeft : Bool, (if goesLeft then other.left else other.right) =
      renumber σ (if goesLeft then node.left else node.right) := by
    intro goesLeft
    cases goesLeft
    · exact h.right
    · exact h.left
  unfold Node.childFor Node.defaultChild
  rw [h.kind, h.defaultLeft, h.threshold, h.comparison, h.categories, h.matchGoesRight]
  split
  · exact hside _
  · exact hside _

namespace Tree

/-- Two trees that show the same nodes under two numberings, with each numbering carried to the
other. -/
structure Renumbered (σ τ : Nat → Nat) (tree other : Tree T L) : Prop where
  numNodes : other.numNodes = tree.numNodes
  root : 0 < tree.nodeCount → σ 0 = 0
  forth : ∀ i < tree.nodeCount, σ i < tree.nodeCount ∧ τ (σ i) = i
  back : ∀ j < tree.nodeCount, τ j < tree.nodeCount ∧ σ (τ j) = j
  node : ∀ i node, tree.node? i = some node →
    ∃ shown, other.node? (σ i) = some shown ∧ node.Alike σ shown

def HasNode (tree : Tree T L) (child : Int32) : Prop :=
  ¬ child < 0 ∧ child.toInt.toNat < tree.nodeCount

theorem toInt_ofNat_of_lt {tree : Tree T L} {nid : Nat} (h : nid < tree.nodeCount) :
    (Int32.ofNat nid).toInt = nid :=
  Int32.toInt_ofNat_of_lt (Nat.lt_trans h tree.nodeCount_lt)

theorem toNat_ofNat_of_lt {tree : Tree T L} {nid : Nat} (h : nid < tree.nodeCount) :
    (Int32.ofNat nid).toInt.toNat = nid := by
  rw [toInt_ofNat_of_lt h, Int.toNat_natCast]

theorem hasNode_ofNat {tree : Tree T L} {nid : Nat} (h : nid < tree.nodeCount) :
    tree.HasNode (.ofNat nid) := by
  refine ⟨?_, by rwa [toNat_ofNat_of_lt h]⟩
  rw [Int32.lt_iff_toInt_lt, toInt_ofNat_of_lt h, Int32.toInt_zero]
  omega

theorem HasNode.ofNat_toNat {tree : Tree T L} {child : Int32} (h : tree.HasNode child) :
    Int32.ofNat child.toInt.toNat = child := by
  have hnonneg := h.1
  rw [Int32.lt_iff_toInt_lt, Int32.toInt_zero] at hnonneg
  refine Int32.toInt_inj.mp ?_
  rw [toInt_ofNat_of_lt h.2]
  omega

theorem HasNode.ne_noChild {tree : Tree T L} {child : Int32} (h : tree.HasNode child) :
    child ≠ noChild := by
  rintro rfl
  exact h.1 (by decide)

theorem inRange_of_hasNode {tree : Tree T L} (hpos : 0 ≤ tree.numNodes) {child : Int32}
    (h : child = noChild ∨ tree.HasNode child) : child < tree.numNodes ∧ noChild ≤ child := by
  have hminus : noChild.toInt = -1 := by decide
  rw [Int32.le_iff_toInt_le, Int32.toInt_zero] at hpos
  rw [Int32.lt_iff_toInt_lt, Int32.le_iff_toInt_le, hminus]
  rcases h with rfl | ⟨hnonneg, hlt⟩
  · omega
  · rw [Int32.lt_iff_toInt_lt, Int32.toInt_zero] at hnonneg
    unfold nodeCount at hlt
    omega

theorem Checked.hasNode_of_child {tree : Tree T L} (hc : tree.Checked) {nid : Nat}
    {node : Node T L} (hnode : tree.node? nid = some node) :
    (node.left = noChild ∨ tree.HasNode node.left) ∧
      (node.right = noChild ∨ tree.HasNode node.right) := by
  have hs := hc.sound nid (hc.lt hnode)
  by_cases hleaf : node.left = noChild
  · have hboth := hs.bothOrNone
    rw [getD_left hnode, getD_right hnode] at hboth
    exact ⟨.inl hleaf, .inl (hboth.mp hleaf)⟩
  · obtain ⟨hl, hr⟩ := children_lt hs hnode hleaf
    exact ⟨.inr hl, .inr hr⟩

namespace Renumbered

variable {tree other : Tree T L}

theorem nodeCount (h : Renumbered σ τ tree other) : other.nodeCount = tree.nodeCount := by
  rw [Tree.nodeCount, h.numNodes, Tree.nodeCount]

private theorem renumber_child (h : Renumbered σ τ tree other) {child : Int32}
    (hchild : tree.HasNode child) :
    (renumber σ child).toInt.toNat = σ child.toInt.toNat ∧ other.HasNode (renumber σ child) := by
  have hlt := (h.forth _ hchild.2).1
  rw [renumber, if_neg hchild.ne_noChild]
  exact ⟨toNat_ofNat_of_lt hlt, hasNode_ofNat (h.nodeCount ▸ hlt)⟩

private theorem renumber_eq_noChild (h : Renumbered σ τ tree other) {child : Int32}
    (hchild : child = noChild ∨ tree.HasNode child) :
    renumber σ child = noChild ↔ child = noChild := by
  rcases hchild with rfl | hchild
  · rw [renumber_noChild]
  · exact iff_of_false (h.renumber_child hchild).2.ne_noChild hchild.ne_noChild

private theorem hasNode_renumber (h : Renumbered σ τ tree other) {child : Int32}
    (hchild : child = noChild ∨ tree.HasNode child) :
    renumber σ child = noChild ∨ other.HasNode (renumber σ child) := by
  rcases hchild with rfl | hchild
  · exact .inl renumber_noChild
  · exact .inr (h.renumber_child hchild).2

theorem renumber_renumber (h : Renumbered σ τ tree other) {child : Int32}
    (hchild : child = noChild ∨ tree.HasNode child) :
    renumber τ (renumber σ child) = child := by
  rcases hchild with rfl | hchild
  · rw [renumber_noChild, renumber_noChild]
  · obtain ⟨hvalue, hthere⟩ := h.renumber_child hchild
    rw [renumber, if_neg hthere.ne_noChild, hvalue, (h.forth _ hchild.2).2]
    exact hchild.ofNat_toNat

theorem isLeaf (h : Renumbered σ τ tree other) (hc : tree.Checked) {nid : Nat}
    {node shown : Node T L} (hnode : tree.node? nid = some node) (halike : node.Alike σ shown) :
    shown.isLeaf = node.isLeaf := by
  rw [Node.isLeaf, Node.isLeaf, halike.left]
  exact decide_eq_decide.mpr (h.renumber_eq_noChild (hc.hasNode_of_child hnode).1)

theorem node_back (h : Renumbered σ τ tree other) (hc : tree.Checked) {j : Nat} {shown : Node T L}
    (hj : j < tree.nodeCount) (hshown : other.node? j = some shown) :
    ∃ node, tree.node? (τ j) = some node ∧ node.Alike σ shown := by
  obtain ⟨hlt, hback⟩ := h.back j hj
  obtain ⟨node, hnode⟩ := exists_node hc.columnar hlt (hc.sound _ hlt)
  obtain ⟨found, hfound, halike⟩ := h.node _ node hnode
  rw [hback, hshown] at hfound
  cases hfound
  exact ⟨node, hnode, halike⟩

theorem symm (h : Renumbered σ τ tree other) (hc : tree.Checked) (hother : other.Columnar) :
    Renumbered τ σ other tree := by
  have hcount := h.nodeCount
  refine ⟨h.numNodes.symm, fun hpos => ?_, hcount ▸ h.back, hcount ▸ h.forth,
    fun j shown hshown => ?_⟩
  · rw [hcount] at hpos
    have hroot := (h.forth 0 hpos).2
    rwa [h.root hpos] at hroot
  · obtain ⟨node, hnode, halike⟩ := h.node_back hc (hcount ▸ hother.lt hshown) hshown
    obtain ⟨hl, hr⟩ := hc.hasNode_of_child hnode
    exact ⟨node, hnode, halike.kind.symm, by rw [halike.left, h.renumber_renumber hl],
      by rw [halike.right, h.renumber_renumber hr], halike.feature.symm, halike.defaultLeft.symm,
      halike.threshold.symm, halike.comparison.symm, halike.leafValue.symm,
      halike.leafVector.symm, halike.categories.symm, halike.matchGoesRight.symm⟩

/-- The marking of both trees meets their nodes in the same order. -/
theorem mark (h : Renumbered σ τ tree other) (hc : tree.Checked) {steps : Nat} {stack : List Nat}
    {visited seen final : Array Bool} (hstack : ∀ nid ∈ stack, nid < tree.nodeCount)
    (hsize : visited.size = tree.nodeCount) (hseen : seen.size = tree.nodeCount)
    (hsame : ∀ nid < tree.nodeCount, seen[σ nid]? = visited[nid]?)
    (hmark : tree.mark steps stack visited = .ok final) :
    ∃ found, other.mark steps (stack.map σ) seen = .ok found ∧ found.size = tree.nodeCount ∧
      ∀ nid < tree.nodeCount, found[σ nid]? = final[nid]? := by
  induction steps generalizing stack visited seen with
  | zero =>
    cases stack with
    | nil =>
      cases hmark
      exact ⟨seen, rfl, hseen, hsame⟩
    | cons nid stack =>
      cases hmark
      exact ⟨seen, rfl, hseen, hsame⟩
  | succ steps ih =>
    cases stack with
    | nil =>
      cases hmark
      exact ⟨seen, rfl, hseen, hsame⟩
    | cons nid stack =>
      obtain ⟨hnid, hrest⟩ := List.forall_mem_cons.mp hstack
      obtain ⟨node, hnode⟩ := exists_node hc.columnar hnid (hc.sound nid hnid)
      obtain ⟨shown, hshown, halike⟩ := h.node nid node hnode
      obtain ⟨hv, hmark⟩ := mark_cons hnode (by omega) hmark
      have hfresh : seen.getD (σ nid) false = false := by
        rw [Array.getD_eq_getD_getElem?, hsame nid hnid, Array.getElem?_eq_getElem (by omega), hv,
          Option.getD_some]
      rw [List.map_cons, mark_fresh hshown hfresh]
      have hmarked : ∀ m < tree.nodeCount, (seen.setIfInBounds (σ nid) true)[σ m]? =
          (visited.setIfInBounds nid true)[m]? := by
        intro m hm
        by_cases hsame' : m = nid
        · rw [hsame', Array.getElem?_setIfInBounds_self_of_lt (hseen ▸ (h.forth nid hnid).1),
            Array.getElem?_setIfInBounds_self_of_lt (hsize ▸ hnid)]
        · have hne : σ m ≠ σ nid := by
            intro heq
            rw [← (h.forth m hm).2, heq, (h.forth nid hnid).2] at hsame'
            exact hsame' rfl
          rw [Array.getElem?_setIfInBounds_ne (Ne.symm hne),
            Array.getElem?_setIfInBounds_ne (Ne.symm hsame'), hsame m hm]
      obtain ⟨hl, hr⟩ := hc.hasNode_of_child hnode
      rw [halike.left, halike.right]
      by_cases hnone : node.left = noChild
      · rw [if_pos hnone] at hmark
        rw [if_pos ((h.renumber_eq_noChild hl).mpr hnone)]
        exact ih hrest (by simpa using hsize) (by simpa using hseen) hmarked hmark
      · rw [if_neg hnone] at hmark
        rw [if_neg (mt (h.renumber_eq_noChild hl).mp hnone)]
        obtain ⟨hl, hr⟩ := children_lt (hc.sound nid hnid) hnode hnone
        rw [(h.renumber_child hl).1, (h.renumber_child hr).1, ← List.map_cons, ← List.map_cons]
        exact ih (List.forall_mem_cons.mpr ⟨hl.2, List.forall_mem_cons.mpr ⟨hr.2, hrest⟩⟩)
          (by simpa using hsize) (by simpa using hseen) hmarked hmark

theorem checkSingleRooted (h : Renumbered σ τ tree other) (hc : tree.Checked)
    (hpos : 0 < tree.nodeCount) (hrooted : tree.checkSingleRooted = .ok ()) :
    other.checkSingleRooted = .ok () := by
  rw [Tree.checkSingleRooted, bind_eq_ok] at hrooted
  obtain ⟨final, hmark, hall⟩ := hrooted
  have hreplicate : ∀ nid < tree.nodeCount, (Array.replicate tree.nodeCount false)[σ nid]? =
      (Array.replicate tree.nodeCount false)[nid]? := by
    intro nid hnid
    rw [Array.getElem?_replicate, Array.getElem?_replicate, if_pos hnid,
      if_pos (h.forth nid hnid).1]
  obtain ⟨found, hfound, hsize, hsame⟩ := h.mark hc (by simpa using hpos) (by simp) (by simp)
    hreplicate hmark
  rw [List.map_singleton, h.root hpos] at hfound
  have hnone : final.findIdx? (fun seen => !seen) = none := by
    cases hfind : final.findIdx? fun seen => !seen with
    | none => rfl
    | some nid =>
      rw [hfind] at hall
      cases hall
  have hnone' : found.findIdx? (fun seen => !seen) = none := by
    rw [Array.findIdx?_eq_none_iff] at hnone ⊢
    intro seen hseen
    obtain ⟨j, hj, rfl⟩ := Array.getElem_of_mem hseen
    obtain ⟨hlt, hback⟩ := h.back j (hsize ▸ hj)
    have hfinal := hsame _ hlt
    rw [hback, Array.getElem?_eq_getElem hj] at hfinal
    exact hnone _ (Array.mem_of_getElem? hfinal.symm)
  rw [Tree.checkSingleRooted, h.nodeCount, hfound, ok_bind, hnone']
  rfl

/-- Where all ranges of the other tree lie in their stores, it is a tree as well. -/
theorem validate (h : Renumbered σ τ tree other) (hvalid : tree.validate = .ok ())
    (hother : other.Columnar) (hranges : other.RangesFit) : other.validate = .ok () := by
  have hc := Checked.of_validate hvalid
  obtain ⟨hpos, -, -, hrooted⟩ := validate_eq_ok.mp hvalid
  rw [← h.numNodes] at hpos
  refine validate_eq_ok.mpr ⟨hpos, hother, fun j hj => ?_, fun hcount => ?_⟩
  · obtain ⟨hleaf, hcategory⟩ := hranges.at hother hj
    rw [h.nodeCount] at hj
    obtain ⟨hlt, hback⟩ := h.back j hj
    obtain ⟨node, hnode⟩ := exists_node hc.columnar hlt (hc.sound _ hlt)
    obtain ⟨shown, hshown, halike⟩ := h.node _ node hnode
    rw [hback] at hshown
    have hs := hc.sound _ hlt
    obtain ⟨hl, hr⟩ := hc.hasNode_of_child hnode
    obtain ⟨hll, hlr⟩ := inRange_of_hasNode hpos (h.hasNode_renumber hl)
    obtain ⟨hrl, hrr⟩ := inRange_of_hasNode hpos (h.hasNode_renumber hr)
    have hboth := hs.bothOrNone
    have hkind := hs.kindFits
    rw [getD_left hnode, getD_right hnode] at hboth
    rw [getD_kind hnode, getD_left hnode] at hkind
    refine ⟨hleaf, hcategory, ?_, ?_, ?_⟩
    · rw [getD_left hshown, getD_right hshown, halike.left, halike.right,
        h.renumber_eq_noChild hl, h.renumber_eq_noChild hr]
      exact hboth
    · rw [getD_left hshown, getD_right hshown, halike.left, halike.right]
      exact ⟨hll, hrl, hlr, hrr⟩
    · rw [getD_kind hshown, getD_left hshown, halike.kind, halike.left, h.renumber_eq_noChild hl]
      exact hkind
  · rw [h.nodeCount] at hcount
    exact h.checkSingleRooted hc hcount (hrooted hcount)

section Walks

variable [Numeric T] [Score α]

theorem leafBelow? (h : Renumbered σ τ tree other) (hc : tree.Checked) (row : Array α)
    (steps : Nat) {nid : Nat} (hnid : nid < tree.nodeCount) :
    other.leafBelow? row steps (σ nid) = (tree.leafBelow? row steps nid).map σ := by
  induction steps generalizing nid with
  | zero =>
    obtain ⟨node, hnode⟩ := exists_node hc.columnar hnid (hc.sound nid hnid)
    obtain ⟨shown, hshown, halike⟩ := h.node nid node hnode
    simp only [Tree.leafBelow?, hnode, hshown, h.isLeaf hc hnode halike]
    cases node.isLeaf <;> rfl
  | succ steps ih =>
    obtain ⟨node, hnode⟩ := exists_node hc.columnar hnid (hc.sound nid hnid)
    obtain ⟨shown, hshown, halike⟩ := h.node nid node hnode
    have hsame := h.isLeaf hc hnode halike
    cases hleaf : node.isLeaf with
    | true =>
      rw [hleaf] at hsame
      rw [leafBelow?_leaf hnode hleaf, leafBelow?_leaf hshown hsame, Option.map_some]
    | false =>
      have hnot := hsame.trans hleaf
      simp only [Tree.leafBelow?, hnode, hshown, hleaf, hnot, halike.feature, Bool.false_eq_true,
        if_false]
      cases row[node.feature.toNat]? with
      | none => rfl
      | some value =>
        have hchild : tree.HasNode (node.childFor value) := by
          have hinner : node.left ≠ noChild := by simpa [Node.isLeaf] using hleaf
          obtain ⟨hl, hr⟩ := children_lt (hc.sound nid hnid) hnode hinner
          rcases childFor_eq node value with hside | hside
          · exact hside ▸ hl
          · exact hside ▸ hr
        obtain ⟨hvalue, hthere⟩ := h.renumber_child hchild
        dsimp only
        rw [halike.childFor, if_neg hthere.1, if_neg hchild.1, hvalue, ih hchild.2]

theorem leafOf? (h : Renumbered σ τ tree other) (hc : tree.Checked) (hpos : 0 < tree.nodeCount)
    (row : Array α) : other.leafOf? row = (tree.leafOf? row).map σ := by
  rw [Tree.leafOf?, Tree.leafOf?, h.nodeCount]
  have hleaf := h.leafBelow? hc row tree.nodeCount hpos
  rwa [h.root hpos] at hleaf

end Walks

end Renumbered

end Tree

end Arboretum

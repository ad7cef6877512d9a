import Arboretum.Proofs.Tree.Validity
import Arboretum.Tree.Walk
import Mathlib.Algebra.Group.Nat.Defs

/-!
Walks in a checked tree. Every node that the tree counts can be looked at, and every row that is
long enough for the tested features is led from the root to a leaf before the steps run out.
-/

namespace Arboretum

variable {T L α : Type}

theorem exists_entry {column : Array α} {n nid : Nat} (hc : column.size = n) (h : nid < n) :
    ∃ entry, column[nid]? = some entry :=
  ⟨_, Array.getElem?_eq_getElem (hc ▸ h)⟩

private theorem exists_storeRange {store : Array α} (first : UInt64) {last : UInt64}
    (h : last.toNat ≤ store.size) : ∃ range, storeRange? store first last = some range := by
  rw [storeRange?]
  by_cases hempty : last ≤ first
  · exact ⟨_, if_pos hempty⟩
  · exact ⟨_, by rw [if_neg hempty, if_pos h]⟩

private theorem exists_recorded {flags : Array Bool} {values : Array α} {n nid : Nat}
    (hf : flags.size = n) (hv : values.size = n) (h : nid < n) :
    ∃ entry, recorded? flags values nid = some entry := by
  obtain ⟨flag, hflag⟩ := exists_entry hf h
  obtain ⟨value, hvalue⟩ := exists_entry hv h
  simp only [recorded?, hflag, hvalue]
  cases flag
  · exact ⟨_, rfl⟩
  · exact ⟨_, rfl⟩

theorem lt_of_getElem? {column : Array α} {n nid : Nat} {entry : α} (hc : column.size = n)
    (h : column[nid]? = some entry) : nid < n := by
  obtain ⟨hlt, -⟩ := Array.getElem?_eq_some_iff.mp h
  omega

theorem getD_of_getElem? {column : Array α} {nid : Nat} {entry default : α}
    (h : column[nid]? = some entry) : column.getD nid default = entry := by
  rw [Array.getD_eq_getD_getElem?, h, Option.getD_some]

namespace Tree

theorem getD_kind {tree : Tree T L} {nid : Nat} {node : Node T L}
    (h : tree.node? nid = some node) : tree.kind.getD nid .leaf = node.kind :=
  getD_of_getElem? (node?_eq_some_iff.mp h).1

theorem getD_left {tree : Tree T L} {nid : Nat} {node : Node T L}
    (h : tree.node? nid = some node) : tree.left.getD nid noChild = node.left :=
  getD_of_getElem? (node?_eq_some_iff.mp h).2.1

theorem getD_right {tree : Tree T L} {nid : Nat} {node : Node T L}
    (h : tree.node? nid = some node) : tree.right.getD nid noChild = node.right :=
  getD_of_getElem? (node?_eq_some_iff.mp h).2.2.1

theorem nodeCount_lt (tree : Tree T L) : tree.nodeCount < 2 ^ 31 := by
  have hlt := tree.numNodes.toInt_lt
  unfold nodeCount
  omega

theorem exists_node {tree : Tree T L} (hc : tree.Columnar) {nid : Nat} (h : nid < tree.nodeCount)
    (hs : tree.SoundAt nid) : ∃ node, tree.node? nid = some node := by
  have columns := hc.columns
  obtain ⟨kind, hkind⟩ := exists_entry columns.kind h
  obtain ⟨left, hleft⟩ := exists_entry columns.left h
  obtain ⟨right, hright⟩ := exists_entry columns.right h
  obtain ⟨feature, hfeature⟩ := exists_entry columns.feature h
  obtain ⟨default, hdefault⟩ := exists_entry columns.defaultLeft h
  obtain ⟨value, hvalue⟩ := exists_entry columns.leafValue h
  obtain ⟨threshold, hthreshold⟩ := exists_entry columns.threshold h
  obtain ⟨comparison, hcomparison⟩ := exists_entry columns.comparison h
  obtain ⟨goes, hgoes⟩ := exists_entry columns.matchGoesRight h
  obtain ⟨lb, hlb⟩ := exists_entry columns.leafBegin h
  obtain ⟨le, hle⟩ := exists_entry columns.leafEnd h
  obtain ⟨cb, hcb⟩ := exists_entry columns.categoryBegin h
  obtain ⟨ce, hce⟩ := exists_entry columns.categoryEnd h
  have hl := hs.leafRange.2
  have hr := hs.categoryRange.2
  rw [getD_of_getElem? hle] at hl
  rw [getD_of_getElem? hce] at hr
  obtain ⟨vector, hvector⟩ := exists_storeRange lb hl
  obtain ⟨categories, hcategories⟩ := exists_storeRange cb hr
  obtain ⟨count, hcount⟩ := exists_recorded columns.hasDataCount columns.dataCount h
  obtain ⟨sum, hsum⟩ := exists_recorded columns.hasSumHess columns.sumHess h
  obtain ⟨gain, hgain⟩ := exists_recorded columns.hasGain columns.gain h
  exact ⟨⟨kind, left, right, feature.toUInt32, default, threshold, comparison, value, vector,
    categories, goes, count, sum, gain⟩, node?_eq_some_iff.mpr ⟨hkind, hleft, hright,
      ⟨feature, hfeature, rfl⟩, hdefault, hthreshold, hcomparison, hvalue,
      ⟨lb, le, hlb, hle, hvector⟩, ⟨cb, ce, hcb, hce, hcategories⟩, hgoes, hcount, hsum, hgain⟩⟩

theorem child_lt {tree : Tree T L} {child : Int32} (hlow : noChild ≤ child)
    (hhigh : child < tree.numNodes) (hne : child ≠ noChild) :
    ¬ child < 0 ∧ child.toInt.toNat < tree.nodeCount := by
  rw [Int32.le_iff_toInt_le] at hlow
  rw [Int32.lt_iff_toInt_lt] at hhigh
  have hn : child.toInt ≠ -1 := fun h => hne (Int32.toInt_inj.mp h)
  have hm : noChild.toInt = -1 := by decide
  constructor
  · rw [Int32.lt_iff_toInt_lt, Int32.toInt_zero]
    omega
  · unfold nodeCount
    omega

theorem children_lt {tree : Tree T L} {nid : Nat} {node : Node T L} (hs : tree.SoundAt nid)
    (hnode : tree.node? nid = some node) (hleaf : node.left ≠ noChild) :
    (¬ node.left < 0 ∧ node.left.toInt.toNat < tree.nodeCount) ∧
      ¬ node.right < 0 ∧ node.right.toInt.toNat < tree.nodeCount := by
  have hrange := hs.inRange
  have hboth := hs.bothOrNone
  rw [getD_left hnode, getD_right hnode] at hrange hboth
  exact ⟨child_lt hrange.2.2.1 hrange.1 hleaf,
    child_lt hrange.2.2.2 hrange.2.1 fun h => hleaf (hboth.mpr h)⟩

theorem childFor_eq [Numeric T] [Score α] (node : Node T L) (value : α) :
    node.childFor value = node.left ∨ node.childFor value = node.right := by
  unfold Node.childFor Node.defaultChild
  dsimp only
  split
  · split
    · exact .inl rfl
    · exact .inr rfl
  · generalize (if node.kind = .categoricalTest then _ else _ : Bool) = goesLeft
    cases goesLeft
    · exact .inr rfl
    · exact .inl rfl

/-- The check of all nodes, without the walk that follows it. -/
structure Checked (tree : Tree T L) : Prop where
  columnar : tree.Columnar
  sound : ∀ nid < tree.nodeCount, tree.SoundAt nid

theorem Checked.of_validate {tree : Tree T L} (h : tree.validate = .ok ()) : tree.Checked :=
  ⟨(validate_eq_ok.mp h).2.1, (validate_eq_ok.mp h).2.2.1⟩

theorem Columnar.lt {tree : Tree T L} (hc : tree.Columnar) {nid : Nat} {node : Node T L}
    (h : tree.node? nid = some node) : nid < tree.nodeCount :=
  lt_of_getElem? hc.columns.kind (node?_eq_some_iff.mp h).1

theorem Checked.lt {tree : Tree T L} (hc : tree.Checked) {nid : Nat} {node : Node T L}
    (h : tree.node? nid = some node) : nid < tree.nodeCount :=
  hc.columnar.lt h

private theorem getElem?_filterMap {α β : Type} {f : α → Option β} {xs : List α}
    (h : ∀ x ∈ xs, ∃ y, f x = some y) (i : Nat) : (xs.filterMap f)[i]? = xs[i]?.bind f := by
  induction xs generalizing i with
  | nil => rfl
  | cons x xs ih =>
    obtain ⟨⟨y, hy⟩, hrest⟩ := List.forall_mem_cons.mp h
    rw [List.filterMap_cons_some hy]
    cases i with
    | zero => rw [List.getElem?_cons_zero, List.getElem?_cons_zero, Option.bind_some, hy]
    | succ i => rw [List.getElem?_cons_succ, List.getElem?_cons_succ, ih hrest]

/-- A tree that has been checked shows all its nodes, each at its place. -/
theorem getElem?_nodes {tree : Tree T L} (hc : tree.Checked) (nid : Nat) :
    tree.nodes[nid]? = tree.node? nid := by
  rw [nodes, getElem?_filterMap]
  · rcases Nat.lt_or_ge nid tree.nodeCount with hlt | hge
    · rw [List.getElem?_range hlt, Option.bind_some]
    · rw [List.getElem?_eq_none (by rwa [List.length_range]), Option.bind_none]
      cases hnode : tree.node? nid with
      | none => rfl
      | some node => exact absurd (hc.lt hnode) (Nat.not_lt.mpr hge)
  · intro i hi
    have hlt := List.mem_range.mp hi
    exact exists_node hc.columnar hlt (hc.sound i hlt)

def TestsBelow (tree : Tree T L) (bound : Nat) : Prop :=
  ∀ nid node, tree.node? nid = some node → node.isLeaf = false → node.feature.toNat < bound

/-- A node that is met for the first time is marked, and the children of a test come before the
rest. -/
theorem mark_fresh {tree : Tree T L} {steps nid : Nat} {stack : List Nat} {visited : Array Bool}
    {node : Node T L} (hnode : tree.node? nid = some node)
    (hfresh : visited.getD nid false = false) :
    tree.mark (steps + 1) (nid :: stack) visited =
      tree.mark steps
        (if node.left = noChild then stack
          else node.left.toInt.toNat :: node.right.toInt.toNat :: stack)
        (visited.setIfInBounds nid true) := by
  rw [mark, hfresh, if_neg Bool.false_ne_true]
  simp only [getD_left hnode, getD_right hnode]
  split <;> rfl

theorem mark_cons {tree : Tree T L} {steps nid : Nat} {stack : List Nat}
    {visited final : Array Bool} {node : Node T L} (hnode : tree.node? nid = some node)
    (hlt : nid < visited.size) (h : tree.mark (steps + 1) (nid :: stack) visited = .ok final) :
    visited[nid] = false ∧
      tree.mark steps
        (if node.left = noChild then stack
          else node.left.toInt.toNat :: node.right.toInt.toNat :: stack)
        (visited.setIfInBounds nid true) = .ok final := by
  have hget : visited.getD nid false = visited[nid] := by
    rw [getD_of_getElem? (Array.getElem?_eq_getElem hlt)]
  cases hv : visited[nid] with
  | true =>
    rw [mark, hget, hv] at h
    cases h
  | false =>
    rw [mark_fresh hnode (hget.trans hv)] at h
    exact ⟨rfl, h⟩

theorem count_marked {visited : Array Bool} {nid : Nat} (hlt : nid < visited.size)
    (hv : visited[nid] = false) :
    (visited.setIfInBounds nid true).count false + 1 = visited.count false := by
  have hpos := Array.boole_getElem_le_count (a := false) hlt
  rw [Array.setIfInBounds, dif_pos hlt, Array.count_set hlt]
  simp only [hv, BEq.rfl, if_true] at hpos ⊢
  have : (true == false) = false := rfl
  simp only [this, Bool.false_eq_true, if_false]
  omega

section Walks

variable [Numeric T] [Score α]

theorem leafBelow?_leaf {tree : Tree T L} {row : Array α} {steps nid : Nat} {node : Node T L}
    (hnode : tree.node? nid = some node) (hleaf : node.isLeaf = true) :
    tree.leafBelow? row steps nid = some nid := by
  cases steps <;> simp [leafBelow?, hnode, hleaf]

/-- One step of a walk: a test sends the row to one of its children. -/
theorem leafBelow?_test {tree : Tree T L} {row : Array α} {steps nid : Nat} {node : Node T L}
    (hnode : tree.node? nid = some node) (hleaf : node.isLeaf = false)
    (hrow : node.feature.toNat < row.size) (hneg : ¬ node.childFor row[node.feature.toNat] < 0) :
    tree.leafBelow? row (steps + 1) nid =
      tree.leafBelow? row steps (node.childFor row[node.feature.toNat]).toInt.toNat := by
  rw [leafBelow?]
  simp only [hnode, hleaf, Bool.false_eq_true, if_false, Array.getElem?_eq_getElem hrow, hneg]

/-- A walk that ends has started at a leaf, or has a step less to go from the child that a test
sends the row to. -/
theorem leafBelow?_eq_some {tree : Tree T L} {row : Array α} {steps nid leaf : Nat}
    (h : tree.leafBelow? row steps nid = some leaf) :
    ∃ node, tree.node? nid = some node ∧
      (node.isLeaf = true ∧ leaf = nid ∨
        node.isLeaf = false ∧ ∃ fewer value, steps = fewer + 1 ∧
          row[node.feature.toNat]? = some value ∧ ¬ node.childFor value < 0 ∧
          tree.leafBelow? row fewer (node.childFor value).toInt.toNat = some leaf) := by
  cases hnode : tree.node? nid with
  | none => cases steps <;> simp [leafBelow?, hnode] at h
  | some node =>
    refine ⟨node, rfl, ?_⟩
    cases hisLeaf : node.isLeaf with
    | true =>
      rw [leafBelow?_leaf hnode hisLeaf] at h
      exact .inl ⟨rfl, (Option.some.inj h).symm⟩
    | false =>
      cases steps with
      | zero => simp [leafBelow?, hnode, hisLeaf] at h
      | succ fewer =>
        cases hvalue : row[node.feature.toNat]? with
        | none => simp [leafBelow?, hnode, hisLeaf, hvalue] at h
        | some value =>
          simp only [leafBelow?, hnode, hisLeaf, hvalue, Bool.false_eq_true, if_false,
            Option.ite_none_left_eq_some] at h
          exact .inr ⟨rfl, fewer, value, rfl, rfl, h.1, h.2⟩

theorem leafBelow?_succ {tree : Tree T L} {row : Array α} {steps nid leaf : Nat}
    (h : tree.leafBelow? row steps nid = some leaf) :
    tree.leafBelow? row (steps + 1) nid = some leaf := by
  induction steps generalizing nid with
  | zero =>
    obtain ⟨node, hnode, ⟨hleaf, rfl⟩ | ⟨-, fewer, -, hsteps, -⟩⟩ := leafBelow?_eq_some h
    · exact leafBelow?_leaf hnode hleaf
    · cases hsteps
  | succ steps ih =>
    obtain ⟨node, hnode, ⟨hleaf, rfl⟩ | ⟨htest, fewer, value, hsteps, hvalue, hneg, hwalk⟩⟩ :=
      leafBelow?_eq_some h
    · exact leafBelow?_leaf hnode hleaf
    · cases hsteps
      obtain ⟨hrow, rfl⟩ := Array.getElem?_eq_some_iff.mp hvalue
      rw [leafBelow?_test hnode htest hrow hneg]
      exact ih hwalk

/-- The marking of nodes meets each of them once, so a row that starts at a node still to be marked
ends its walk within as many steps as there are unmarked nodes. -/
theorem leafBelow?_of_mark {tree : Tree T L} (hc : tree.Checked) {row : Array α}
    (hrow : tree.TestsBelow row.size) {steps : Nat} {stack : List Nat} {visited final : Array Bool}
    (hmark : tree.mark (steps + 1) stack visited = .ok final)
    (hsize : visited.size = tree.nodeCount) (hcount : visited.count false ≤ steps)
    (hstack : ∀ nid ∈ stack, nid < tree.nodeCount) :
    ∀ nid ∈ stack, ∃ leaf, tree.leafBelow? row steps nid = some leaf := by
  induction steps generalizing stack visited with
  | zero =>
    cases stack with
    | nil => simp
    | cons nid stack =>
      -- No node is left to be marked, so the first of the stack would be met again.
      have hn : nid < tree.nodeCount := hstack nid (by simp)
      obtain ⟨node, hnode⟩ := exists_node hc.columnar hn (hc.sound nid hn)
      obtain ⟨hv, -⟩ := mark_cons hnode (by omega) hmark
      have := count_marked (by omega) hv
      omega
  | succ steps ih =>
    cases stack with
    | nil => simp
    | cons nid stack =>
      have hn : nid < tree.nodeCount := hstack nid (by simp)
      have hrest : ∀ m ∈ stack, m < tree.nodeCount := fun m hm => hstack m (by simp [hm])
      have hs := hc.sound nid hn
      obtain ⟨node, hnode⟩ := exists_node hc.columnar hn hs
      obtain ⟨hv, hmark⟩ := mark_cons hnode (by omega) hmark
      have hmarked := count_marked (by omega) hv
      have hsize' : (visited.setIfInBounds nid true).size = tree.nodeCount := by simpa using hsize
      by_cases hleaf : node.left = noChild
      · -- A leaf ends its own walk; the other nodes of the stack come next.
        rw [if_pos hleaf] at hmark
        have hothers := ih hmark hsize' (by omega) hrest
        intro m hm
        rcases List.mem_cons.mp hm with rfl | hm
        · exact ⟨m, leafBelow?_leaf hnode (by simp [Node.isLeaf, hleaf])⟩
        · obtain ⟨leaf, hl⟩ := hothers m hm
          exact ⟨leaf, leafBelow?_succ hl⟩
      · -- A test sends the row to one of its children, and these come next.
        rw [if_neg hleaf] at hmark
        obtain ⟨hl, hr⟩ := children_lt hs hnode hleaf
        have hstack' : ∀ m ∈ node.left.toInt.toNat :: node.right.toInt.toNat :: stack,
            m < tree.nodeCount := by
          simp only [List.forall_mem_cons]
          exact ⟨hl.2, hr.2, hrest⟩
        have hothers := ih hmark hsize' (by omega) hstack'
        intro m hm
        rcases List.mem_cons.mp hm with rfl | hm
        · have hnot : node.isLeaf = false := by simp [Node.isLeaf, hleaf]
          have hfeature := hrow m node hnode hnot
          rcases childFor_eq node row[node.feature.toNat] with hchild | hchild
          · rw [leafBelow?_test hnode hnot hfeature (by rw [hchild]; exact hl.1), hchild]
            exact hothers _ (by simp)
          · rw [leafBelow?_test hnode hnot hfeature (by rw [hchild]; exact hr.1), hchild]
            exact hothers _ (by simp)
        · obtain ⟨leaf, hw⟩ := hothers m (by simp [hm])
          exact ⟨leaf, leafBelow?_succ hw⟩

theorem isLeaf_of_leafBelow? {tree : Tree T L} {row : Array α} {steps nid leaf : Nat}
    (h : tree.leafBelow? row steps nid = some leaf) :
    ∃ node, tree.node? leaf = some node ∧ node.isLeaf = true := by
  induction steps generalizing nid with
  | zero =>
    obtain ⟨node, hnode, ⟨hleaf, rfl⟩ | ⟨-, fewer, -, hsteps, -⟩⟩ := leafBelow?_eq_some h
    · exact ⟨node, hnode, hleaf⟩
    · cases hsteps
  | succ steps ih =>
    obtain ⟨node, hnode, ⟨hleaf, rfl⟩ | ⟨-, fewer, value, hsteps, -, -, hwalk⟩⟩ :=
      leafBelow?_eq_some h
    · exact ⟨node, hnode, hleaf⟩
    · cases hsteps
      exact ih hwalk

/-- In a checked tree with a node, every row that is long enough reaches a leaf. -/
theorem exists_leafOf {tree : Tree T L} (hvalid : tree.validate = .ok ())
    (hpos : 0 < tree.nodeCount) {row : Array α} (hrow : tree.TestsBelow row.size) :
    ∃ leaf, tree.leafOf? row = some leaf := by
  have hroot := (validate_eq_ok.mp hvalid).2.2.2 hpos
  rw [checkSingleRooted, bind_eq_ok] at hroot
  obtain ⟨final, hmark, -⟩ := hroot
  refine leafBelow?_of_mark (.of_validate hvalid) hrow hmark (by simp) ?_ ?_ 0 (by simp)
  · exact Nat.le_of_eq Array.count_replicate_self
  · simpa using hpos

end Walks

end Tree

/-- Two leaves with one output. A scalar counts only where there is no vector. -/
structure Node.SameOutput (node other : Node T L) : Prop where
  leafVector : other.leafVector = node.leafVector
  leafValue : node.hasLeafVector = false → other.leafValue = node.leafValue

end Arboretum

import Arboretum.Proofs.Tree.Linking
import Arboretum.Proofs.Tree.Shape

/-!
What a tree keeps up from its start, whatever calls change it and whether they fail or not. Each
call that edits a node leaves all other nodes as they are, so it is enough to look at the node that
it edits and at the order of the category ranges; a call that fails leaves everything as it is, or
one new node without a parent.
-/

namespace Arboretum

/-- A call that changes a tree, with its arguments. -/
inductive Change (T L : Type) where
  | reset
  | allocNode
  | addChildren (nid : Nat)
  | setChildren (nid left right : Nat)
  | setNumericalSplit (nid : Nat) (feature : UInt32) (threshold : T) (defaultLeft : Bool)
    (comparison : Comparison)
  | setCategoricalSplit (nid : Nat) (feature : UInt32) (defaultLeft : Bool)
    (categories : List UInt32) (matchGoesRight : Bool)
  | setLeaf (nid : Nat) (value : L)
  | setLeafVector (nid : Nat) (values : Array L)
  | setDataCount (nid : Nat) (count : UInt64)
  | setSumHess (nid : Nat) (sum : Double)
  | setGain (nid : Nat) (gain : Double)

variable {T L : Type}

/-- Make the call. The id of a new node is left aside. -/
def Change.perform [Numeric T] [Numeric L] : Change T L → Edit (Tree T L) Unit
  | reset => Tree.reset
  | allocNode => do let _ ← Tree.allocNode
  | addChildren nid => Tree.addChildren nid
  | setChildren nid left right => Tree.setChildren nid left right
  | setNumericalSplit nid feature threshold defaultLeft comparison =>
    Tree.setNumericalSplit nid feature threshold defaultLeft comparison
  | setCategoricalSplit nid feature defaultLeft categories matchGoesRight =>
    Tree.setCategoricalSplit nid feature defaultLeft categories matchGoesRight
  | setLeaf nid value => Tree.setLeaf nid value
  | setLeafVector nid values => Tree.setLeafVector nid values
  | setDataCount nid count => Tree.setDataCount nid count
  | setSumHess nid sum => Tree.setSumHess nid sum
  | setGain nid gain => Tree.setGain nid gain

section Order

variable {α : Type} {store : Array α} {begins ends : Array UInt64} {first : UInt64}

/-- Every range between two columns of offsets ends where the next one begins, or before. -/
def RangesInOrder (begins ends : Array UInt64) : Prop :=
  ∀ (m : Nat) (last first : UInt64), ends[m]? = some last → begins[m + 1]? = some first →
    last ≤ first

namespace RangesInOrder

theorem push (h : RangesInOrder begins ends) (hcolumns : begins.size = ends.size)
    (hend : ∀ (m : Nat) (last : UInt64), ends[m]? = some last → last ≤ first) :
    RangesInOrder (begins.push first) (ends.push first) := by
  intro m e b he hb
  rw [Array.getElem?_push] at he hb
  by_cases hnext : m + 1 = begins.size
  · rw [if_pos hnext] at hb
    rw [if_neg (by omega)] at he
    cases hb
    exact hend m e he
  · rw [if_neg hnext] at hb
    obtain ⟨hlt, -⟩ := Array.getElem?_eq_some_iff.mp hb
    rw [if_neg (by omega)] at he
    exact h m e b he hb

/-- One node gets what is added to the store, and all later nodes an empty range behind it. -/
theorem extend (h : RangesInOrder begins ends) (hin : RangesIn store begins ends)
    (hcolumns : begins.size = ends.size) (nid : Nat) {more : Array α}
    (hsize : (store ++ more).size < UInt64.size) :
    RangesInOrder
      (begins.mapIdx fun i old =>
        if i = nid then .ofNat store.size
        else if nid < i then .ofNat (store ++ more).size else old)
      (ends.mapIdx fun i old => if nid ≤ i then .ofNat (store ++ more).size else old) := by
  intro m e b he hb
  rw [Array.getElem?_mapIdx] at he hb
  obtain ⟨oldLast, hlast, rfl⟩ := Option.map_eq_some_iff.mp he
  obtain ⟨oldFirst, hfirst, rfl⟩ := Option.map_eq_some_iff.mp hb
  rcases Nat.lt_trichotomy (m + 1) nid with hm | hm | hm
  · rw [if_neg (by omega), if_neg (by omega), if_neg (by omega)]
    exact h m oldLast oldFirst hlast hfirst
  · -- The new range begins at the old end of the store, and no range ends behind that.
    obtain ⟨hlt, -⟩ := Array.getElem?_eq_some_iff.mp hlast
    obtain ⟨begin, hbegin⟩ := exists_entry hcolumns hlt
    rw [if_neg (by omega), if_pos hm, UInt64.le_iff_toNat_le,
      toNat_storeEnd (by rw [Array.size_append] at hsize; omega)]
    exact (hin m begin oldLast hbegin hlast).2
  · rw [if_pos (by omega), if_neg (by omega), if_pos hm]
    exact UInt64.le_refl _

end RangesInOrder

end Order

namespace Tree

/-- A node whose categories ascend and that has no children or two nodes of the tree. -/
structure Fits (tree : Tree T L) (node : Node T L) : Prop where
  ascending : node.categories.toList.Pairwise (· ≤ ·)
  children : node.left = noChild ∧ node.right = noChild ∨
    tree.HasNode node.left ∧ tree.HasNode node.right

/-- What all calls that change a tree keep up. -/
structure WellKept (tree : Tree T L) : Prop where
  numNodes_nonneg : 0 ≤ tree.numNodes
  /-- Each of the columns with one entry for a node has as many entries as there are nodes. -/
  columnar : tree.Columnar
  /-- The ranges of all nodes lie in the stores of leaf vectors and categories. -/
  ranges : tree.RangesFit
  inOrder : RangesInOrder tree.categoryBegin tree.categoryEnd
  nodes : ∀ nid < tree.nodeCount, ∃ node, tree.node? nid = some node ∧ tree.Fits node

/-- A tree whose stores have not outgrown their offsets is well kept. -/
def Kept (tree : Tree T L) : Prop := tree.Bounded → tree.WellKept

variable {tree before after : Tree T L} {nid : Nat}

theorem HasNode.mono (hle : before.nodeCount ≤ after.nodeCount) {child : Int32}
    (h : before.HasNode child) : after.HasNode child :=
  ⟨h.1, Nat.lt_of_lt_of_le h.2 hle⟩

theorem Fits.mono (hle : before.nodeCount ≤ after.nodeCount) {node : Node T L}
    (h : before.Fits node) : after.Fits node :=
  ⟨h.ascending, h.children.imp_right fun ⟨hleft, hright⟩ => ⟨hleft.mono hle, hright.mono hle⟩⟩

theorem wellKept_empty : (empty : Tree T L).WellKept where
  numNodes_nonneg := Int32.le_refl 0
  columnar := by simp [Columnar, columnSizes, empty, nodeCount]
  ranges := rangesFit_empty
  inOrder := by
    intro m last first h
    cases h
  nodes := fun nid hnid => absurd hnid (Nat.not_lt_zero nid)

section Edits

/-- An edit of one node keeps the tree when it keeps that node and the order of the ranges. -/
theorem WellKept.edited {change : Node T L → Node T L} {categorical : Bool}
    {leaves categories : Nat} (h : before.WellKept) (hb : after.Bounded)
    (hedited : Edited nid change categorical before after)
    (hgrown : Grown leaves categories before after)
    (horder : RangesInOrder after.categoryBegin after.categoryEnd)
    (hchange : ∀ node, after.Fits node → after.Fits (change node)) : after.WellKept where
  numNodes_nonneg := hedited.numNodes ▸ h.numNodes_nonneg
  columnar := hedited.columnar h.columnar
  ranges := hgrown.ranges hb h.ranges
  inOrder := horder
  nodes := by
    intro m hm
    rw [hedited.nodeCount_eq] at hm
    obtain ⟨node, hnode, hfits⟩ := h.nodes m hm
    have hafter := hfits.mono (Nat.le_of_eq hedited.nodeCount_eq.symm)
    by_cases hself : m = nid
    · subst hself
      exact ⟨change node, hedited.self h.columnar hb node hnode, hchange node hafter⟩
    · exact ⟨node, hedited.other h.columnar hb m hself node hnode, hafter⟩

def SameOffsets (before after : Tree T L) : Prop :=
  after.categoryBegin = before.categoryBegin ∧ after.categoryEnd = before.categoryEnd

theorem Kept.edited {edit : Edit (Tree T L) Unit} {change : Node T L → Node T L}
    {categorical : Bool} {leaves categories : Nat} (h : before.Kept)
    (hedited : edit.Leads before fun _ after => Edited nid change categorical before after)
    (hgrown : edit.Leads before fun _ after => Grown leaves categories before after)
    (hoffsets : edit.Leads before fun _ after => SameOffsets before after)
    (hchange : ∀ (tree : Tree T L) node, tree.Fits node → tree.Fits (change node)) :
    (edit.apply before).2.Kept := by
  refine ((hedited.and hgrown).and hoffsets).left h ?_
  rintro _ after ⟨⟨hedited, hgrown⟩, hbegin, hend⟩ hb
  have hkept := h (hedited.bounded hb)
  refine hkept.edited hb hedited hgrown ?_ (hchange after)
  rw [hbegin, hend]
  exact hkept.inOrder

private theorem modify_sameOffsets {change : Tree T L → Tree T L}
    (h : ∀ tree, SameOffsets tree (change tree)) :
    (checkNode nid >>= fun _ => modify change : Edit (Tree T L) Unit).Leads tree
      fun _ after => SameOffsets tree after :=
  checkNode_leads fun _ => .of_eq rfl (h tree)

private theorem setNumericalSplit_sameOffsets (feature : UInt32) (threshold : T)
    (defaultLeft : Bool) (comparison : Comparison) :
    (setNumericalSplit nid feature threshold defaultLeft comparison : Edit (Tree T L) Unit).Leads
      tree fun _ after => SameOffsets tree after := by
  rw [setNumericalSplit]
  exact checkNode_leads fun _ => .lift_bind fun _ _ => .of_eq rfl ⟨rfl, rfl⟩

private theorem setCategoricalSplit_inOrder (feature : UInt32) (defaultLeft : Bool)
    (categories : List UInt32) (matchGoesRight : Bool) :
    (setCategoricalSplit nid feature defaultLeft categories matchGoesRight :
      Edit (Tree T L) Unit).Leads tree fun _ after => after.Bounded → tree.WellKept →
        RangesInOrder after.categoryBegin after.categoryEnd := by
  rw [setCategoricalSplit]
  refine checkNode_leads fun _ => .lift_bind fun _ _ => .get_bind ?_
  cases tree.laterCategories? nid with
  | some later => exact .inl ⟨_, rfl⟩
  | none =>
    refine .of_eq rfl fun hb h => ?_
    have columns := h.columnar.columns
    exact h.inOrder.extend h.ranges.category
      (columns.categoryBegin.trans columns.categoryEnd.symm) nid hb.categoryStore

theorem Kept.setCategoricalSplit (h : tree.Kept) (nid : Nat) (feature : UInt32)
    (defaultLeft : Bool) (categories : List UInt32) (matchGoesRight : Bool) :
    ((setCategoricalSplit nid feature defaultLeft categories matchGoesRight :
      Edit (Tree T L) Unit).apply tree).2.Kept := by
  refine (((setCategoricalSplit_edited feature defaultLeft categories matchGoesRight).and
    (setCategoricalSplit_grown feature defaultLeft categories matchGoesRight)).and
    (setCategoricalSplit_inOrder feature defaultLeft categories matchGoesRight)).left h ?_
  rintro _ after ⟨⟨hedited, hgrown⟩, horder⟩ hb
  have hkept := h (hedited.bounded hb)
  exact hkept.edited hb hedited hgrown (horder hb hkept) fun node hfits =>
    ⟨ascending_mergeSort categories, hfits.children⟩

theorem WellKept.link (h : tree.WellKept) (nid : Nat) {left right : Nat}
    (hleft : left < tree.nodeCount) (hright : right < tree.nodeCount) :
    (tree.link nid left right).WellKept where
  numNodes_nonneg := h.numNodes_nonneg
  columnar := columnar_linkAll [(nid, left, right)] h.columnar
  ranges := ⟨h.ranges.leaf, h.ranges.category⟩
  inOrder := h.inOrder
  nodes := by
    intro m hm
    obtain ⟨node, hnode, hfits⟩ := h.nodes m hm
    by_cases hself : m = nid
    · subst hself
      exact ⟨_, node?_link_self hnode left right,
        ⟨hfits.ascending, .inr ⟨hasNode_ofNat hleft, hasNode_ofNat hright⟩⟩⟩
    · have hcount : tree.nodeCount ≤ (tree.link nid left right).nodeCount := Nat.le_refl _
      exact ⟨node, node?_link_other hself hnode left right, hfits.mono hcount⟩

theorem Kept.setChildren (h : tree.Kept) (nid left right : Nat) :
    ((setChildren nid left right : Edit (Tree T L) Unit).apply tree).2.Kept := by
  refine (setChildren_leads tree nid left right).left h ?_
  rintro _ after ⟨-, hleft, hright, rfl⟩ hb
  exact (h ⟨hb.1, hb.2⟩).link nid hleft hright

end Edits

section Growth

variable [Numeric T] [Numeric L]

private theorem fits_fresh (tree : Tree T L) : tree.Fits Node.fresh :=
  ⟨List.Pairwise.nil, .inl ⟨rfl, rfl⟩⟩

theorem WellKept.pushNode (h : tree.WellKept) (hb : tree.pushNode.Bounded)
    (hlt : tree.numNodes < Int32.maxValue) : tree.pushNode.WellKept := by
  obtain ⟨hnonneg, hcount⟩ := nodeCount_pushNode h.numNodes_nonneg hlt
  have columns := h.columnar.columns
  have hcolumns : tree.categoryBegin.size = tree.categoryEnd.size :=
    columns.categoryBegin.trans columns.categoryEnd.symm
  obtain ⟨hold, hnew⟩ := node?_pushNode h.columnar
  refine ⟨hnonneg, columnar_pushNode h.numNodes_nonneg hlt h.columnar,
    (pushNode_grown h.columnar).ranges hb h.ranges, h.inOrder.push hcolumns ?_, fun m hm => ?_⟩
  · -- The range of the new node begins at the end of the store, and no range ends behind that.
    intro m last hlast
    obtain ⟨hm, -⟩ := Array.getElem?_eq_some_iff.mp hlast
    obtain ⟨first, hfirst⟩ := exists_entry hcolumns hm
    have hsize : tree.categoryStore.size < UInt64.size := hb.categoryStore
    rw [UInt64.le_iff_toNat_le, toNat_storeEnd hsize]
    exact (h.ranges.category m first last hfirst hlast).2
  · rw [hcount] at hm
    rcases Nat.lt_succ_iff_lt_or_eq.mp hm with hm | rfl
    · obtain ⟨node, hnode, hfits⟩ := h.nodes m hm
      exact ⟨node, hold m node hnode, hfits.mono (by omega)⟩
    · exact ⟨Node.fresh, hnew, fits_fresh _⟩

theorem Kept.pushNode (h : tree.Kept) (hlt : tree.numNodes < Int32.maxValue) :
    tree.pushNode.Kept :=
  fun hb => (h ⟨hb.1, hb.2⟩).pushNode hb hlt

/-- The first new node stays where there is no room for the second. -/
theorem Kept.addChildren (h : tree.Kept) (nid : Nat) :
    ((addChildren nid : Edit (Tree T L) Unit).apply tree).2.Kept := by
  have hcheck : (checkNode nid : Edit (Tree T L) Unit).Leads tree fun _ middle => tree = middle :=
    .get_bind (.require fun _ => rfl)
  rw [Tree.addChildren]
  -- Each of the three steps may be the last one, so the tree has to be well kept after each.
  refine hcheck.left_bind h ?_
  rintro _ _ rfl
  refine (allocNode_leads _).left_bind h ?_
  rintro _ _ ⟨-, hlt, rfl, rfl⟩
  refine (allocNode_leads _).left_bind (h.pushNode hlt) ?_
  rintro _ _ ⟨-, hlt', rfl, rfl⟩ hb
  have hb' : tree.Bounded := ⟨hb.1, hb.2⟩
  have hone := (h hb').pushNode ⟨hb.1, hb.2⟩ hlt
  have htwo := hone.pushNode ⟨hb.1, hb.2⟩ hlt'
  obtain ⟨-, hcount⟩ := nodeCount_pushNode (h hb').numNodes_nonneg hlt
  obtain ⟨-, hcount'⟩ := nodeCount_pushNode hone.numNodes_nonneg hlt'
  exact htwo.link nid (by omega) (by omega)

/-- Every call keeps what a tree keeps up, whether it fails or not. -/
theorem Kept.perform (h : tree.Kept) (change : Change T L) :
    (change.perform.apply tree).2.Kept := by
  cases change with
  | reset =>
    have hroom : (0 : Int32) < Int32.maxValue := by decide
    exact fun hb => wellKept_empty.pushNode hb hroom
  | allocNode =>
    refine (allocNode_leads tree).left_bind h ?_
    rintro _ _ ⟨-, hlt, -, rfl⟩
    exact h.pushNode hlt
  | addChildren nid => exact h.addChildren nid
  | setChildren nid left right => exact h.setChildren nid left right
  | setNumericalSplit nid feature threshold defaultLeft comparison =>
    exact h.edited (setNumericalSplit_edited feature threshold defaultLeft comparison)
      (setNumericalSplit_grown feature threshold defaultLeft comparison)
      (setNumericalSplit_sameOffsets feature threshold defaultLeft comparison)
      fun _ _ hfits => ⟨hfits.ascending, hfits.children⟩
  | setCategoricalSplit nid feature defaultLeft categories matchGoesRight =>
    exact h.setCategoricalSplit nid feature defaultLeft categories matchGoesRight
  | setLeaf nid value =>
    exact h.edited (setLeaf_edited value) (setLeaf_grown value)
      (modify_sameOffsets fun _ => ⟨rfl, rfl⟩) fun _ _ hfits => ⟨hfits.ascending, .inl ⟨rfl, rfl⟩⟩
  | setLeafVector nid values =>
    exact h.edited (setLeafVector_edited values) (setLeafVector_grown values)
      (modify_sameOffsets fun _ => ⟨rfl, rfl⟩) fun _ _ hfits => ⟨hfits.ascending, .inl ⟨rfl, rfl⟩⟩
  | setDataCount nid count =>
    exact h.edited (setDataCount_edited count) (setDataCount_grown count)
      (modify_sameOffsets fun _ => ⟨rfl, rfl⟩) fun _ _ hfits => ⟨hfits.ascending, hfits.children⟩
  | setSumHess nid sum =>
    exact h.edited (setSumHess_edited sum) (setSumHess_grown sum)
      (modify_sameOffsets fun _ => ⟨rfl, rfl⟩) fun _ _ hfits => ⟨hfits.ascending, hfits.children⟩
  | setGain nid gain =>
    exact h.edited (setGain_edited gain) (setGain_grown gain)
      (modify_sameOffsets fun _ => ⟨rfl, rfl⟩) fun _ _ hfits => ⟨hfits.ascending, hfits.children⟩

/-- The tree after some calls, whether they fail or not. -/
def run (tree : Tree T L) (changes : List (Change T L)) : Tree T L :=
  changes.foldl (fun tree change => (change.perform.apply tree).2) tree

theorem Kept.run (h : tree.Kept) (changes : List (Change T L)) : (tree.run changes).Kept := by
  induction changes generalizing tree with
  | nil => exact h
  | cons change changes ih => exact ih (h.perform change)

end Growth

section Validation

/-- The errors that say why columns do not form a tree though each of them is in order, each with
what it blames. -/
inductive Misshapen (tree : Tree T L) : Error → Prop where
  | kindMismatch {nid : Nat} {node : Node T L} (hnode : tree.node? nid = some node)
    (hkind : ¬ (node.kind = .leaf ↔ node.left = noChild)) : tree.Misshapen
      (.structural (.kindMismatch nid node.kind node.left.toInt node.right.toInt))
  | reachedTwice {nid : Nat} {p q : List Side} (hne : p ≠ q) (hp : tree.follow? p 0 = some nid)
    (hq : tree.follow? q 0 = some nid) : tree.Misshapen (.structural (.reachedTwice nid))
  | orphan {nid : Nat} (hnid : nid < tree.nodeCount)
    (hnone : ∀ path, tree.follow? path 0 ≠ some nid) : tree.Misshapen (.structural (.orphan nid))

/-- A node of a well-kept tree can only be of the wrong kind. -/
theorem WellKept.checkLocal_eq_error (h : tree.WellKept) (hnid : nid < tree.nodeCount) {e : Error}
    (herror : tree.checkLocal nid = .error e) : tree.Misshapen e := by
  obtain ⟨hleaf, hcategory⟩ := h.ranges.at h.columnar hnid
  obtain ⟨node, hnode, -, hchildren⟩ := h.nodes nid hnid
  have hboth : node.left = noChild ↔ node.right = noChild := by
    rcases hchildren with ⟨hleft, hright⟩ | ⟨hleft, hright⟩
    · exact iff_of_true hleft hright
    · exact iff_of_false hleft.ne_noChild hright.ne_noChild
  obtain ⟨hl, hlow⟩ :=
    inRange_of_hasNode h.numNodes_nonneg (hchildren.imp (fun hnone => hnone.1) fun hhas => hhas.1)
  obtain ⟨hr, hlow'⟩ :=
    inRange_of_hasNode h.numNodes_nonneg (hchildren.imp (fun hnone => hnone.2) fun hhas => hhas.2)
  simp only [checkLocal, checkRange, then_eq_error, require_eq_error, getD_left hnode,
    getD_right hnode, getD_kind hnode] at herror
  rcases herror with ⟨hnot, -⟩ | ⟨-, ⟨hnot, -⟩ | ⟨-, ⟨hnot, -⟩ | ⟨-, ⟨hnot, -⟩ | ⟨-, hnot, rfl⟩⟩⟩⟩
  · exact absurd hleaf hnot
  · exact absurd hcategory hnot
  · exact absurd hboth hnot
  · exact absurd ⟨hl, hr, hlow, hlow'⟩ hnot
  · exact .kindMismatch hnode hnot

/-- The check of a well-kept tree can only find fault with a kind or with the paths. -/
theorem WellKept.validate_eq_error (h : tree.WellKept) {e : Error}
    (herror : tree.validate = .error e) : tree.Misshapen e := by
  simp only [validate, then_eq_error, require_eq_error, require_eq_ok, forM_eq_ok,
    checkLocal_eq_ok, List.mem_range] at herror
  rcases herror with ⟨hnot, -⟩ | ⟨-, hcolumns | ⟨-, hlocal | ⟨hsound, hrooted⟩⟩⟩
  · exact absurd h.numNodes_nonneg hnot
  · rw [checkColumnSizes_eq_ok.mpr h.columnar] at hcolumns
    cases hcolumns
  · obtain ⟨nid, hnid, hlocal⟩ := exists_of_forM_eq_error hlocal
    exact h.checkLocal_eq_error (List.mem_range.mp hnid) hlocal
  · split at hrooted
    · rename_i hpos
      rcases checkSingleRooted_outcome ⟨h.columnar, hsound⟩ hpos with
        ⟨hok, -⟩ | ⟨nid, -, htwice, p, q, hne, hp, hq⟩ | ⟨nid, hnid, horphan, hnone⟩
      · rw [hok] at hrooted
        cases hrooted
      · rw [htwice] at hrooted
        cases hrooted
        exact .reachedTwice hne hp hq
      · rw [horphan] at hrooted
        cases hrooted
        exact .orphan hnid hnone
    · cases hrooted

end Validation

/-- Whatever calls have changed a tree since it was empty, and whether they failed or not, its
columns and ranges are in order, and the check can only blame a kind that does not go with the
children of its node, a node at the end of two paths, or one at the end of none. -/
theorem run_wellKept [Numeric T] [Numeric L] (changes : List (Change T L))
    (hb : ((empty : Tree T L).run changes).Bounded) :
    ((empty : Tree T L).run changes).WellKept ∧
      ∀ e, ((empty : Tree T L).run changes).validate = .error e →
        ((empty : Tree T L).run changes).Misshapen e := by
  have hstart : (empty : Tree T L).Kept := fun _ => wellKept_empty
  have hkept := hstart.run changes hb
  exact ⟨hkept, fun e => hkept.validate_eq_error⟩

/-- Calls of which two are refused: node 1 cannot get categories once node 2 has some, and there is
no node 7. -/
def crossedSplits : List (Change Double Double) :=
  [.allocNode, .addChildren 0, .setNumericalSplit 0 0 Numeric.zero true .less,
    .setCategoricalSplit 2 1 false [3] false, .setCategoricalSplit 1 0 false [2] false,
    .setLeafVector 1 #[Numeric.zero], .setGain 7 Numeric.zero]

/-- Node 2 has become a test without children, and nothing else is wrong with the tree. -/
theorem run_wellKept_crossedSplits :
    let tree := (empty : Tree Double Double).run crossedSplits
    tree.Bounded ∧ tree.WellKept ∧
      tree.validate = .error (.structural (.kindMismatch 2 .categoricalTest (-1) (-1))) ∧
      tree.Misshapen (.structural (.kindMismatch 2 .categoricalTest (-1) (-1))) := by
  intro tree
  have hb : tree.Bounded := by decide +kernel
  have herror : tree.validate =
      .error (.structural (.kindMismatch 2 .categoricalTest (-1) (-1))) := by decide +kernel
  obtain ⟨hkept, hblame⟩ := run_wellKept crossedSplits hb
  exact ⟨hb, hkept, herror, hblame _ herror⟩

end Tree

end Arboretum

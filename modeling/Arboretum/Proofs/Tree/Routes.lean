import Arboretum.Proofs.Numeric.Order
import Arboretum.Proofs.Tree.Shape
import Mathlib.Data.Finset.Card

/-!
The routes of rows through a tree. A row is sent along a path if every test on the path, asked about
its feature, sends the row on to the next node of the path. In a checked tree exactly one leaf lies
at the end of such a path, and the walk of the row ends there.
-/

namespace Arboretum

variable {T L α : Type}

namespace Node

def child (node : Node T L) : Side → Int32
  | .left => node.left
  | .right => node.right

variable [Numeric T] [Score α]

/-- The side that a test sends a value to: the default one if the value is missing, the right one if
a list of categories matches just as its flag says, the left one if a comparison with a threshold
holds. -/
def sideFor (node : Node T L) (value : α) : Side :=
  if FloatWord.isNaN value then
    if node.defaultLeft then .left else .right
  else if node.kind = .categoricalTest then
    if categoryMatches value node.categories = node.matchGoesRight then .right else .left
  else
    if node.comparison.holds value (Numeric.cast node.threshold) then .left else .right

theorem childFor_eq_child (node : Node T L) (value : α) :
    node.childFor value = node.child (node.sideFor value) := by
  unfold childFor sideFor defaultChild
  dsimp only
  cases FloatWord.isNaN value with
  | true => cases node.defaultLeft <;> rfl
  | false =>
    by_cases hkind : node.kind = .categoricalTest
    · simp only [hkind, Bool.false_eq_true, if_false, if_true]
      cases categoryMatches value node.categories <;> cases node.matchGoesRight <;> rfl
    · simp only [hkind, Bool.false_eq_true, if_false]
      cases node.comparison.holds value (Numeric.cast node.threshold) <;> rfl

section Comparison

variable {p : Precision} {node : Node p.Word L} {value : p.Word}

private theorem sideFor_eq_left_iff_holds (hnumber : FloatWord.isNaN value = false)
    (htest : node.kind ≠ .categoricalTest) :
    node.sideFor value = .left ↔ node.comparison.holds value node.threshold = true := by
  rw [sideFor, hnumber, if_neg Bool.false_ne_true, if_neg htest, Numeric.cast_self]
  cases node.comparison.holds value node.threshold <;> simp

/-- A test with a threshold sends a value to the left where its comparison holds on the line of
numbers. -/
theorem sideFor_eq_left_iff (hnumber : FloatWord.isNaN value = false)
    (htest : node.kind ≠ .categoricalTest) :
    node.sideFor value = .left ↔ ∃ a b, FloatWord.extended? value = some a ∧
      FloatWord.extended? node.threshold = some b ∧ node.comparison.Relates a b := by
  rw [sideFor_eq_left_iff_holds hnumber htest, Comparison.holds_iff]

theorem sideFor_eq_left_iff_of_value? (htest : node.kind ≠ .categoricalTest) {a b : ℚ}
    (hvalue : FloatWord.value? value = some a)
    (hthreshold : FloatWord.value? node.threshold = some b) :
    node.sideFor value = .left ↔ node.comparison.Relates a b := by
  rw [sideFor_eq_left_iff_holds (Precision.isNaN_of_value? hvalue) htest,
    Comparison.holds_iff_of_value? node.comparison hvalue hthreshold]

/-- No comparison holds of a threshold that is not a number, so every value goes to the right. -/
theorem sideFor_of_isNaN_threshold (hnumber : FloatWord.isNaN value = false)
    (htest : node.kind ≠ .categoricalTest) (hnan : FloatWord.isNaN node.threshold = true) :
    node.sideFor value = .right := by
  rw [sideFor, hnumber, if_neg Bool.false_ne_true, if_neg htest, Numeric.cast_self,
    Comparison.not_holds_of_isNaN node.comparison (.inr hnan), if_neg Bool.false_ne_true]

end Comparison

end Node

namespace Tree

def IsLeafAt (tree : Tree T L) (nid : Nat) : Prop :=
  ∃ node, tree.node? nid = some node ∧ node.isLeaf = true

private theorem child?_eq {tree : Tree T L} {nid : Nat} {node : Node T L}
    (hnode : tree.node? nid = some node) (side : Side) :
    tree.child? nid side =
      if node.child side < 0 then none else some (node.child side).toInt.toNat := by
  obtain ⟨-, hleft, hright, -⟩ := node?_eq_some_iff.mp hnode
  cases side with
  | left => simp [child?, Node.child, hleft]
  | right => simp [child?, Node.child, hright]

/-- Where each node is at the end of one path at most, a path has fewer steps than the tree has
nodes: no two of its beginnings end at the same node. -/
theorem length_lt_of_follow? {tree : Tree T L} (hc : tree.Checked) (hpos : 0 < tree.nodeCount)
    (hone : ∀ nid < tree.nodeCount, ∃! path, tree.follow? path 0 = some nid)
    {path : List Side} {goal : Nat} (h : tree.follow? path 0 = some goal) :
    path.length < tree.nodeCount := by
  have hnode : ∀ n, ∃ nid, tree.follow? (path.take n) 0 = some nid := by
    intro n
    rw [← List.take_append_drop n path, follow?_append, Option.bind_eq_some_iff] at h
    exact ⟨h.choose, h.choose_spec.1⟩
  choose nodeAt hnodeAt using hnode
  have hlt : ∀ n, nodeAt n < tree.nodeCount := fun n => hc.follow?_lt hpos (hnodeAt n)
  have hinj : Set.InjOn nodeAt (Finset.range (path.length + 1)) := by
    intro m hm n hn heq
    have htake : path.take m = path.take n :=
      (hone _ (hlt m)).unique (hnodeAt m) (heq ▸ hnodeAt n)
    have hlength := congrArg List.length htake
    simp only [Finset.coe_range, Set.mem_Iio, List.length_take] at hm hn hlength
    omega
  have hcard := Finset.card_le_card_of_injOn nodeAt
    (t := Finset.range tree.nodeCount) (fun n _ => by simpa using hlt n) hinj
  rwa [Finset.card_range, Finset.card_range] at hcard

variable [Numeric T] [Score α]

/-- A row is sent along a path from one node to another: each node before the last is a test whose
feature the row has, and the next step is the one that this test asks for. -/
inductive Sent (tree : Tree T L) (row : Array α) : Nat → List Side → Nat → Prop
  | here (nid : Nat) : Sent tree row nid [] nid
  | step {nid child goal : Nat} {node : Node T L} {value : α} {path : List Side}
      (hnode : tree.node? nid = some node) (htest : node.isLeaf = false)
      (hvalue : row[node.feature.toNat]? = some value)
      (hchild : tree.child? nid (node.sideFor value) = some child)
      (hrest : Sent tree row child path goal) :
      Sent tree row nid (node.sideFor value :: path) goal

variable {tree : Tree T L} {row : Array α}

theorem Sent.follow? {nid goal : Nat} {path : List Side} (h : tree.Sent row nid path goal) :
    tree.follow? path nid = some goal := by
  induction h with
  | here nid => rfl
  | step _ _ _ hchild _ ih => exact follow?_cons_eq_some.mpr ⟨_, hchild, ih⟩

/-- Of all routes of a row from a node, one at most ends at a leaf. -/
theorem Sent.unique {nid leaf other : Nat} {path route : List Side}
    (h : tree.Sent row nid path leaf) (hleaf : tree.IsLeafAt leaf)
    (h' : tree.Sent row nid route other) (hother : tree.IsLeafAt other) :
    other = leaf ∧ route = path := by
  induction h generalizing route with
  | here nid =>
    cases h' with
    | here => exact ⟨rfl, rfl⟩
    | step hnode htest =>
      obtain ⟨node, hnode', hisLeaf⟩ := hleaf
      cases hnode.symm.trans hnode'
      simp [htest] at hisLeaf
  | step hnode htest hvalue hchild hrest ih =>
    cases h' with
    | here =>
      obtain ⟨node, hnode', hisLeaf⟩ := hother
      cases hnode.symm.trans hnode'
      simp [htest] at hisLeaf
    | step hnode' htest' hvalue' hchild' hrest' =>
      cases hnode.symm.trans hnode'
      cases hvalue.symm.trans hvalue'
      cases hchild.symm.trans hchild'
      obtain ⟨hsame, hpath⟩ := ih hleaf hrest'
      exact ⟨hsame, congrArg _ hpath⟩

theorem exists_sent {steps nid leaf : Nat} (h : tree.leafBelow? row steps nid = some leaf) :
    ∃ path, path.length ≤ steps ∧ tree.Sent row nid path leaf := by
  induction steps generalizing nid with
  | zero =>
    obtain ⟨node, -, ⟨-, rfl⟩ | ⟨-, fewer, -, hsteps, -⟩⟩ := leafBelow?_eq_some h
    · exact ⟨[], le_rfl, .here leaf⟩
    · cases hsteps
  | succ steps ih =>
    obtain ⟨node, hnode, ⟨-, rfl⟩ | ⟨htest, fewer, value, hsteps, hvalue, hneg, hwalk⟩⟩ :=
      leafBelow?_eq_some h
    · exact ⟨[], Nat.zero_le _, .here leaf⟩
    · cases hsteps
      obtain ⟨path, hlength, hsent⟩ := ih hwalk
      rw [Node.childFor_eq_child] at hneg hsent
      have hchild := child?_eq hnode (node.sideFor value)
      rw [if_neg hneg] at hchild
      exact ⟨_ :: path, Nat.succ_le_succ hlength, .step hnode htest hvalue hchild hsent⟩

theorem Sent.leafBelow? {steps nid leaf : Nat} {path : List Side}
    (h : tree.Sent row nid path leaf) (hleaf : tree.IsLeafAt leaf) (hlength : path.length ≤ steps) :
    tree.leafBelow? row steps nid = some leaf := by
  induction h generalizing steps with
  | here nid =>
    obtain ⟨node, hnode, hisLeaf⟩ := hleaf
    exact leafBelow?_leaf hnode hisLeaf
  | @step nid child goal node value path hnode htest hvalue hchild hrest ih =>
    obtain ⟨fewer, rfl⟩ := Nat.exists_eq_add_of_le' hlength
    obtain ⟨hrow, rfl⟩ := Array.getElem?_eq_some_iff.mp hvalue
    rw [child?_eq hnode, ← Node.childFor_eq_child, Option.ite_none_left_eq_some] at hchild
    obtain ⟨hneg, hto⟩ := hchild
    rw [List.length_cons, ← Nat.add_assoc, leafBelow?_test hnode htest hrow hneg,
      Option.some.inj hto]
    exact ih hleaf (Nat.le_add_left _ _)

/-- A walk with a number of steps ends at the leaves to which the row is sent along a path that is
no longer. -/
theorem leafBelow?_eq_some_iff {steps nid leaf : Nat} :
    tree.leafBelow? row steps nid = some leaf ↔
      tree.IsLeafAt leaf ∧ ∃ path, path.length ≤ steps ∧ tree.Sent row nid path leaf := by
  constructor
  · intro h
    exact ⟨isLeaf_of_leafBelow? h, exists_sent h⟩
  · rintro ⟨hleaf, path, hlength, hsent⟩
    exact hsent.leafBelow? hleaf hlength

/-- In a checked tree with a node, the walk of a row that is long enough ends at a leaf after as
many steps as the path to that leaf has, and these are fewer than there are nodes. The row is sent
along the path to this leaf, and along no path to another one. -/
theorem exists_unique_route (hvalid : tree.validate = .ok ()) (hpos : 0 < tree.nodeCount)
    (hrow : tree.TestsBelow row.size) :
    ∃ leaf path, tree.leafOf? row = some leaf ∧
      (∀ steps, tree.leafBelow? row steps 0 = some leaf ↔ path.length ≤ steps) ∧
      path.length ≤ tree.nodeCount - 1 ∧
      tree.IsLeafAt leaf ∧ tree.Sent row 0 path leaf ∧
      ∀ other route, tree.IsLeafAt other → tree.Sent row 0 route other →
        other = leaf ∧ route = path := by
  have hc : tree.Checked := .of_validate hvalid
  have hone := (checkSingleRooted_eq_ok hc hpos).mp ((validate_eq_ok.mp hvalid).2.2.2 hpos)
  obtain ⟨leaf, hwalk⟩ := exists_leafOf hvalid hpos hrow
  obtain ⟨hleaf, path, -, hsent⟩ := leafBelow?_eq_some_iff.mp hwalk
  have hshort := length_lt_of_follow? hc hpos hone hsent.follow?
  refine ⟨leaf, path, hwalk, fun steps => ⟨fun h => ?_, fun h => ?_⟩, Nat.le_sub_one_of_lt hshort,
    hleaf, hsent, fun other route hother hroute => hsent.unique hleaf hroute hother⟩
  · obtain ⟨-, route, hlength, hroute⟩ := leafBelow?_eq_some_iff.mp h
    rwa [(hsent.unique hleaf hroute hleaf).2] at hlength
  · exact leafBelow?_eq_some_iff.mpr ⟨hleaf, path, h, hsent⟩

/-- A comparison with 1 above a list of categories, with three leaves. -/
def routed : Tree Double Double :=
  ((do
    Tree.addChildren 0
    Tree.setNumericalSplit 0 0 Score.one false .less
    Tree.addChildren 2
    Tree.setCategoricalSplit 2 1 true [2] false : Edit (Tree Double Double) Unit).apply
      Tree.singleLeaf).2

/-- The first feature is missing, and the default child is the right one; the second feature is
infinite and in no list, and what does not match goes to the right as well. -/
def strayRow : Array Double := #[⟨0x7FF8000000000000⟩, ⟨0x7FF0000000000000⟩]

/-- The first feature is one, which is not below one, and the second is the category two. -/
def numberRow : Array Double := #[Score.one, ⟨0x4000000000000000⟩]

theorem exists_unique_route_stray :
    routed.validate = .ok () ∧ 0 < routed.nodeCount ∧ routed.TestsBelow strayRow.size ∧
      (∃ path, routed.leafOf? strayRow = some 4 ∧ path.length = 2 ∧
        routed.Sent strayRow 0 path 4 ∧
        ∀ other route, routed.IsLeafAt other → routed.Sent strayRow 0 route other →
          other = 4 ∧ route = path) ∧
      ∃ path, routed.leafOf? numberRow = some 3 ∧ path.length = 2 ∧
        routed.Sent numberRow 0 path 3 ∧
        ∀ other route, routed.IsLeafAt other → routed.Sent numberRow 0 route other →
          other = 3 ∧ route = path := by
  have hvalid : routed.validate = .ok () := by decide +kernel
  have hpos : 0 < routed.nodeCount := by decide +kernel
  have hrow : routed.TestsBelow 2 := by
    intro nid node hnode htest
    have hlt := (Checked.of_validate hvalid).lt hnode
    have hall : ∀ nid < routed.nodeCount,
        (routed.node? nid).all fun node => node.isLeaf || node.feature.toNat < 2 := by
      decide +kernel
    simpa [hnode, htest] using hall nid hlt
  have hroute : ∀ (row : Array Double) (goal : Nat), row.size = 2 →
      routed.leafOf? row = some goal → routed.leafBelow? row 2 0 = some goal →
      routed.leafBelow? row 1 0 ≠ some goal →
      ∃ path, routed.leafOf? row = some goal ∧ path.length = 2 ∧ routed.Sent row 0 path goal ∧
        ∀ other route, routed.IsLeafAt other → routed.Sent row 0 route other →
          other = goal ∧ route = path := by
    intro row goal hsize hgoal htwo hone
    obtain ⟨leaf, path, hleafOf, hsteps, -, -, hsent, hother⟩ :=
      exists_unique_route hvalid hpos (hsize.symm ▸ hrow)
    cases hleafOf.symm.trans hgoal
    have hle := (hsteps 2).mp htwo
    have hlt := mt (hsteps 1).mpr hone
    exact ⟨path, hgoal, by omega, hsent, hother⟩
  exact ⟨hvalid, hpos, hrow,
    hroute strayRow 4 rfl (by decide +kernel) (by decide +kernel) (by decide +kernel),
    hroute numberRow 3 rfl (by decide +kernel) (by decide +kernel) (by decide +kernel)⟩

end Tree

end Arboretum

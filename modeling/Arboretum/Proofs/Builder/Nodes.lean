import Arboretum.Proofs.Edit
import Arboretum.Proofs.Tree.Validity
import Arboretum.Tree.Edit

/-!
What the edits of a tree do to its nodes. An edit of one node either fails and changes nothing, or
leaves the kind, the test and the leaf outputs of all other nodes alone; the edits that give a node
its test or its output also make it complete.
-/

namespace Arboretum.Tree

variable {T L : Type}

/-- A node with a test or an output that a model with the given features and leaf shape admits. A
leaf has a vector of the declared length, or a single number where the shape asks for one. -/
structure NodeComplete (numFeature : Nat) (shape : LeafShape) (tree : Tree T L) (nid : Nat) :
    Prop where
  leaf : tree.kind[nid]? = some .leaf → ∀ first last, tree.leafBegin[nid]? = some first →
    tree.leafEnd[nid]? = some last →
    last - first = UInt64.ofNat shape.size ∨ shape = .scalar ∧ last = first
  feature : ∀ kind, tree.kind[nid]? = some kind → kind ≠ .leaf →
    ∀ feature, tree.feature[nid]? = some feature → feature.toUInt32.toNat < numFeature
  comparison : ∀ kind, tree.kind[nid]? = some kind → kind ≠ .leaf →
    ∀ comparison, tree.comparison[nid]? = some comparison →
    kind = .categoricalTest ∨ comparison ≠ .never

/-- Two trees with the same kind, test and range of outputs at a node. -/
structure SameAt (nid : Nat) (before after : Tree T L) : Prop where
  kind : after.kind[nid]? = before.kind[nid]?
  feature : after.feature[nid]? = before.feature[nid]?
  comparison : after.comparison[nid]? = before.comparison[nid]?
  leafBegin : after.leafBegin[nid]? = before.leafBegin[nid]?
  leafEnd : after.leafEnd[nid]? = before.leafEnd[nid]?

theorem SameAt.complete {numFeature : Nat} {shape : LeafShape} {nid : Nat}
    {before after : Tree T L} (h : SameAt nid before after)
    (hc : before.NodeComplete numFeature shape nid) : after.NodeComplete numFeature shape nid := by
  constructor
  · rw [h.kind, h.leafBegin, h.leafEnd]
    exact hc.leaf
  · rw [h.kind, h.feature]
    exact hc.feature
  · rw [h.kind, h.comparison]
    exact hc.comparison

theorem SameAt.trans {nid : Nat} {a b c : Tree T L} (h : SameAt nid a b) (h' : SameAt nid b c) :
    SameAt nid a c :=
  ⟨h'.kind.trans h.kind, h'.feature.trans h.feature, h'.comparison.trans h.comparison,
    h'.leafBegin.trans h.leafBegin, h'.leafEnd.trans h.leafEnd⟩

/-- Two trees that differ at one node at most. -/
structure EditedAt (nid : Nat) (before after : Tree T L) : Prop where
  numNodes : after.numNodes = before.numNodes
  other : ∀ m ≠ nid, SameAt m before after

/-- An edit that completes a node, or fails and changes nothing. -/
def Completes (numFeature : Nat) (shape : LeafShape) (nid : Nat) (edit : Edit (Tree T L) Unit) :
    Prop :=
  ∀ tree, edit.Leads tree fun _ after =>
    EditedAt nid tree after ∧ after.NodeComplete numFeature shape nid

/-- An edit that changes no test and no output. -/
def Annotates (edit : Edit (Tree T L) Unit) : Prop :=
  ∀ tree, edit.Leads tree fun _ after =>
    after.numNodes = tree.numNodes ∧ ∀ m, SameAt m tree after

theorem eq_of_getElem?_setIfInBounds {α : Type} {column : Array α} {i : Nat} {a b : α}
    (h : (column.setIfInBounds i a)[i]? = some b) : b = a := by
  rw [Array.getElem?_setIfInBounds, if_pos rfl] at h
  split at h
  · cases h
    rfl
  · cases h

theorem checkNode_leads {α : Type} {nid : Nat} {next : Unit → Edit (Tree T L) α} {tree : Tree T L}
    {goal : α → Tree T L → Prop} (h : nid < tree.nodeCount → (next ()).Leads tree goal) :
    (checkNode nid >>= next).Leads tree goal := by
  refine .check_bind ?_
  rw [checkNode]
  exact .get_bind (.require fun hnid => ⟨rfl, h hnid⟩)

section Edits

variable {nid : Nat}

theorem setNumericalSplit_completes (shape : LeafShape) {numFeature : Nat} {feature : UInt32}
    (hfeature : feature.toNat < numFeature) (threshold : T) (defaultLeft : Bool)
    {comparison : Comparison} (hne : comparison ≠ .never) :
    Completes numFeature shape nid
      (setNumericalSplit nid feature threshold defaultLeft comparison : Edit (Tree T L) Unit) := by
  intro tree
  rw [setNumericalSplit]
  refine checkNode_leads fun _ => .lift_bind fun _ _ => .of_eq rfl ⟨⟨rfl, fun m hm => ?_⟩, ?_⟩
  · have hne := Ne.symm hm
    exact ⟨Array.getElem?_setIfInBounds_ne hne, Array.getElem?_setIfInBounds_ne hne,
      Array.getElem?_setIfInBounds_ne hne, rfl, rfl⟩
  · constructor
    · intro hkind
      cases eq_of_getElem?_setIfInBounds hkind
    · intro kind _ _ stored hstored
      rw [eq_of_getElem?_setIfInBounds hstored, UInt32.toUInt32_toInt32]
      exact hfeature
    · intro kind _ _ stored hstored
      rw [eq_of_getElem?_setIfInBounds hstored]
      exact .inr hne

theorem setCategoricalSplit_completes (shape : LeafShape) {numFeature : Nat} {feature : UInt32}
    (hfeature : feature.toNat < numFeature) (defaultLeft : Bool) (categories : List UInt32)
    (matchGoesRight : Bool) :
    Completes numFeature shape nid
      (setCategoricalSplit nid feature defaultLeft categories matchGoesRight :
        Edit (Tree T L) Unit) := by
  intro tree
  rw [setCategoricalSplit]
  refine checkNode_leads fun _ => .lift_bind fun _ _ => .get_bind ?_
  cases tree.laterCategories? nid with
  | some later => exact .inl ⟨_, rfl⟩
  | none =>
    refine .of_eq rfl ⟨⟨rfl, fun m hm => ?_⟩, ?_⟩
    · have hne := Ne.symm hm
      exact ⟨Array.getElem?_setIfInBounds_ne hne, Array.getElem?_setIfInBounds_ne hne,
        Array.getElem?_setIfInBounds_ne hne, rfl, rfl⟩
    · constructor
      · intro hkind
        cases eq_of_getElem?_setIfInBounds hkind
      · intro kind _ _ stored hstored
        rw [eq_of_getElem?_setIfInBounds hstored, UInt32.toUInt32_toInt32]
        exact hfeature
      · intro kind hkind _ _ _
        exact .inl (eq_of_getElem?_setIfInBounds hkind)

theorem setLeaf_completes (numFeature : Nat) (value : L) :
    Completes numFeature .scalar nid (setLeaf nid value : Edit (Tree T L) Unit) := by
  intro tree
  rw [setLeaf]
  refine checkNode_leads fun _ => .of_eq rfl ⟨⟨rfl, fun m hm => ?_⟩, ?_⟩
  · have hne := Ne.symm hm
    exact ⟨Array.getElem?_setIfInBounds_ne hne, rfl, rfl, rfl, Array.getElem?_setIfInBounds_ne hne⟩
  · constructor
    · intro _ first last hfirst hlast
      refine .inr ⟨rfl, ?_⟩
      rw [eq_of_getElem?_setIfInBounds hlast, Array.getD_eq_getD_getElem?]
      exact congrArg (Option.getD · 0) hfirst
    · intro kind hkind hne
      exact absurd (eq_of_getElem?_setIfInBounds hkind) hne
    · intro kind hkind hne
      exact absurd (eq_of_getElem?_setIfInBounds hkind) hne

/-- The range of a vector has its length, also where the store has outgrown the offsets. -/
theorem setLeafVector_completes (numFeature : Nat) {shape : LeafShape} {values : Array L}
    (hsize : values.size = shape.size) :
    Completes numFeature shape nid (setLeafVector nid values : Edit (Tree T L) Unit) := by
  intro tree
  rw [setLeafVector]
  refine checkNode_leads fun _ => .of_eq rfl ⟨⟨rfl, fun m hm => ?_⟩, ?_⟩
  · have hne := Ne.symm hm
    exact ⟨Array.getElem?_setIfInBounds_ne hne, rfl, rfl, Array.getElem?_setIfInBounds_ne hne,
      Array.getElem?_setIfInBounds_ne hne⟩
  · constructor
    · intro _ first last hfirst hlast
      left
      rw [eq_of_getElem?_setIfInBounds hlast, eq_of_getElem?_setIfInBounds hfirst,
        UInt64.ofNat_add, hsize, UInt64.add_comm]
      exact UInt64.add_sub_cancel _ _
    · intro kind hkind hne
      exact absurd (eq_of_getElem?_setIfInBounds hkind) hne
    · intro kind hkind hne
      exact absurd (eq_of_getElem?_setIfInBounds hkind) hne

private theorem annotates_of_modify {change : Tree T L → Tree T L}
    (hcount : ∀ tree, (change tree).numNodes = tree.numNodes)
    (hsame : ∀ tree m, SameAt m tree (change tree)) :
    Annotates (checkNode nid >>= fun _ => modify change : Edit (Tree T L) Unit) := by
  intro tree
  exact checkNode_leads fun _ => .of_eq rfl ⟨hcount tree, hsame tree⟩

theorem setGain_annotates (gain : Double) :
    Annotates (setGain nid gain : Edit (Tree T L) Unit) :=
  annotates_of_modify (fun _ => rfl) fun _ _ => ⟨rfl, rfl, rfl, rfl, rfl⟩

theorem setDataCount_annotates (count : UInt64) :
    Annotates (setDataCount nid count : Edit (Tree T L) Unit) :=
  annotates_of_modify (fun _ => rfl) fun _ _ => ⟨rfl, rfl, rfl, rfl, rfl⟩

theorem setSumHess_annotates (sum : Double) :
    Annotates (setSumHess nid sum : Edit (Tree T L) Unit) :=
  annotates_of_modify (fun _ => rfl) fun _ _ => ⟨rfl, rfl, rfl, rfl, rfl⟩

end Edits

theorem getElem?_push_of_lt {α : Type} {column : Array α} {n m : Nat} {a : α}
    (hsize : column.size = n) (hm : m < n) : (column.push a)[m]? = column[m]? := by
  rw [Array.getElem?_push, if_neg (by omega)]

theorem sameAt_pushNode [Numeric T] [Numeric L] {tree : Tree T L} (hc : tree.Columnar) {m : Nat}
    (hm : m < tree.nodeCount) : SameAt m tree tree.pushNode := by
  have columns := hc.columns
  exact ⟨getElem?_push_of_lt columns.kind hm, getElem?_push_of_lt columns.feature hm,
    getElem?_push_of_lt columns.comparison hm, getElem?_push_of_lt columns.leafBegin hm,
    getElem?_push_of_lt columns.leafEnd hm⟩

theorem nodeCount_pushNode [Numeric T] [Numeric L] {tree : Tree T L} (hpos : 0 ≤ tree.numNodes)
    (hlt : tree.numNodes < Int32.maxValue) :
    0 ≤ tree.pushNode.numNodes ∧ tree.pushNode.nodeCount = tree.nodeCount + 1 := by
  have hmax : Int32.maxValue.toInt = 2147483647 := by decide
  rw [Int32.le_iff_toInt_le, Int32.toInt_zero] at hpos
  rw [Int32.lt_iff_toInt_lt, hmax] at hlt
  have hsum : (tree.numNodes + 1).toInt = tree.numNodes.toInt + 1 := by
    rw [Int32.toInt_add, Int32.toInt_one]
    exact Int.bmod_eq_of_le (by omega) (by omega)
  have hnumNodes : tree.pushNode.numNodes = tree.numNodes + 1 := rfl
  constructor
  · rw [Int32.le_iff_toInt_le, Int32.toInt_zero, hnumNodes, hsum]
    omega
  · rw [nodeCount, nodeCount, hnumNodes, hsum]
    omega

theorem allocNode_leads [Numeric T] [Numeric L] (tree : Tree T L) :
    (allocNode : Edit (Tree T L) Nat).Leads tree fun nid after =>
      tree.Columnar ∧ tree.numNodes < Int32.maxValue ∧ nid = tree.nodeCount ∧
        after = tree.pushNode := by
  rw [allocNode]
  refine .get_bind (.lift_bind fun _ hcolumns => .require_bind fun hlt => .of_eq rfl ?_)
  exact ⟨checkColumnSizes_eq_ok.mp hcolumns, hlt, rfl, rfl⟩

end Arboretum.Tree

import Arboretum.Proofs.Result
import Arboretum.Tree.Validate
import Mathlib.Data.List.Basic

/-!
What the check of a tree establishes, column by column and node by node. A checked tree shows every
node it counts, and the children of each are nodes that it counts too.
-/

namespace Arboretum.Tree

variable {T L : Type}

theorem node?_eq_some_iff {tree : Tree T L} {nid : Nat} {node : Node T L} :
    tree.node? nid = some node ↔
      tree.kind[nid]? = some node.kind ∧ tree.left[nid]? = some node.left ∧
      tree.right[nid]? = some node.right ∧
      (∃ feature, tree.feature[nid]? = some feature ∧ feature.toUInt32 = node.feature) ∧
      tree.defaultLeft[nid]? = some node.defaultLeft ∧
      tree.threshold[nid]? = some node.threshold ∧ tree.comparison[nid]? = some node.comparison ∧
      tree.leafValue[nid]? = some node.leafValue ∧
      (∃ first last, tree.leafBegin[nid]? = some first ∧ tree.leafEnd[nid]? = some last ∧
        storeRange? tree.leafStore first last = some node.leafVector) ∧
      (∃ first last, tree.categoryBegin[nid]? = some first ∧ tree.categoryEnd[nid]? = some last ∧
        storeRange? tree.categoryStore first last = some node.categories) ∧
      tree.matchGoesRight[nid]? = some node.matchGoesRight ∧
      recorded? tree.hasDataCount tree.dataCount nid = some node.dataCount ∧
      recorded? tree.hasSumHess tree.sumHess nid = some node.sumHess ∧
      recorded? tree.hasGain tree.gain nid = some node.gain := by
  rw [node?]
  constructor
  · intro h
    obtain ⟨kind, hkind, h⟩ := Option.bind_eq_some_iff.mp h
    obtain ⟨left, hleft, h⟩ := Option.bind_eq_some_iff.mp h
    obtain ⟨right, hright, h⟩ := Option.bind_eq_some_iff.mp h
    obtain ⟨feature, hfeature, h⟩ := Option.bind_eq_some_iff.mp h
    obtain ⟨default, hdefault, h⟩ := Option.bind_eq_some_iff.mp h
    obtain ⟨threshold, hthreshold, h⟩ := Option.bind_eq_some_iff.mp h
    obtain ⟨comparison, hcomparison, h⟩ := Option.bind_eq_some_iff.mp h
    obtain ⟨value, hvalue, h⟩ := Option.bind_eq_some_iff.mp h
    obtain ⟨lb, hlb, h⟩ := Option.bind_eq_some_iff.mp h
    obtain ⟨le, hle, h⟩ := Option.bind_eq_some_iff.mp h
    obtain ⟨vector, hvector, h⟩ := Option.bind_eq_some_iff.mp h
    obtain ⟨cb, hcb, h⟩ := Option.bind_eq_some_iff.mp h
    obtain ⟨ce, hce, h⟩ := Option.bind_eq_some_iff.mp h
    obtain ⟨categories, hcategories, h⟩ := Option.bind_eq_some_iff.mp h
    obtain ⟨goes, hgoes, h⟩ := Option.bind_eq_some_iff.mp h
    obtain ⟨count, hcount, h⟩ := Option.bind_eq_some_iff.mp h
    obtain ⟨sum, hsum, h⟩ := Option.bind_eq_some_iff.mp h
    obtain ⟨gain, hgain, h⟩ := Option.bind_eq_some_iff.mp h
    obtain rfl := Option.some.inj h
    exact ⟨hkind, hleft, hright, ⟨feature, hfeature, rfl⟩, hdefault, hthreshold, hcomparison,
      hvalue, ⟨lb, le, hlb, hle, hvector⟩, ⟨cb, ce, hcb, hce, hcategories⟩, hgoes, hcount, hsum,
      hgain⟩
  · rintro ⟨hkind, hleft, hright, ⟨feature, hfeature, he⟩, hdefault, hthreshold, hcomparison,
      hvalue, ⟨lb, le, hlb, hle, hvector⟩, ⟨cb, ce, hcb, hce, hcategories⟩, hgoes, hcount, hsum,
      hgain⟩
    rw [hkind, hleft, hright, hfeature, hdefault, hthreshold, hcomparison, hvalue, hlb, hle]
    simp only [Option.bind_eq_bind, Option.bind_some]
    rw [hvector, hcb, hce]
    simp only [Option.bind_some]
    rw [hcategories, hgoes, hcount, hsum, hgain]
    simp only [Option.bind_some, he]
    rfl

def Columnar (tree : Tree T L) : Prop := ∀ column ∈ tree.columnSizes, column.2 = tree.nodeCount

/-- The sizes of the columns one by one. -/
structure ColumnsOf (n : Nat) (tree : Tree T L) : Prop where
  kind : tree.kind.size = n
  left : tree.left.size = n
  right : tree.right.size = n
  feature : tree.feature.size = n
  defaultLeft : tree.defaultLeft.size = n
  leafValue : tree.leafValue.size = n
  threshold : tree.threshold.size = n
  comparison : tree.comparison.size = n
  matchGoesRight : tree.matchGoesRight.size = n
  leafBegin : tree.leafBegin.size = n
  leafEnd : tree.leafEnd.size = n
  categoryBegin : tree.categoryBegin.size = n
  categoryEnd : tree.categoryEnd.size = n
  dataCount : tree.dataCount.size = n
  hasDataCount : tree.hasDataCount.size = n
  sumHess : tree.sumHess.size = n
  hasSumHess : tree.hasSumHess.size = n
  gain : tree.gain.size = n
  hasGain : tree.hasGain.size = n

theorem Columnar.columns {tree : Tree T L} (hc : tree.Columnar) :
    ColumnsOf tree.nodeCount tree := by
  simp only [Columnar, columnSizes, List.forall_mem_cons, List.not_mem_nil, false_implies,
    implies_true, and_true] at hc
  obtain ⟨hkind, hleft, hright, hfeature, hdefault, hvalue, hthreshold, hcomparison, hgoes, hlb,
    hle, hcb, hce, hcount, hhasCount, hsum, hhasSum, hgain, hhasGain⟩ := hc
  exact ⟨hkind, hleft, hright, hfeature, hdefault, hvalue, hthreshold, hcomparison, hgoes, hlb,
    hle, hcb, hce, hcount, hhasCount, hsum, hhasSum, hgain, hhasGain⟩

theorem checkColumnSizes_eq_ok {tree : Tree T L} :
    tree.checkColumnSizes = .ok () ↔ tree.Columnar := by
  rw [checkColumnSizes, Columnar]
  cases h : tree.columnSizes.find? fun column => column.2 != tree.nodeCount with
  | none =>
    simp only [List.find?_eq_none, bne_iff_ne, ne_eq, not_not] at h
    simpa using h
  | some column =>
    have hm := List.mem_of_find?_eq_some h
    have hn := List.find?_some h
    simp only [bne_iff_ne, ne_eq] at hn
    simp only [reduceCtorEq, false_iff, not_forall]
    exact ⟨column, hm, hn⟩

/-- A node whose ranges lie in their stores and whose children fit its kind. -/
structure SoundAt (tree : Tree T L) (nid : Nat) : Prop where
  leafRange : tree.leafBegin.getD nid 0 ≤ tree.leafEnd.getD nid 0 ∧
    (tree.leafEnd.getD nid 0).toNat ≤ tree.leafStore.size
  categoryRange : tree.categoryBegin.getD nid 0 ≤ tree.categoryEnd.getD nid 0 ∧
    (tree.categoryEnd.getD nid 0).toNat ≤ tree.categoryStore.size
  bothOrNone : tree.left.getD nid noChild = noChild ↔ tree.right.getD nid noChild = noChild
  inRange : tree.left.getD nid noChild < tree.numNodes ∧
    tree.right.getD nid noChild < tree.numNodes ∧ noChild ≤ tree.left.getD nid noChild ∧
    noChild ≤ tree.right.getD nid noChild
  kindFits : tree.kind.getD nid .leaf = .leaf ↔ tree.left.getD nid noChild = noChild

theorem checkLocal_eq_ok {tree : Tree T L} {nid : Nat} :
    tree.checkLocal nid = .ok () ↔ tree.SoundAt nid := by
  simp only [checkLocal, checkRange, then_eq_ok, require_eq_ok]
  constructor
  · rintro ⟨hl, hc, hb, hr, hk⟩
    exact ⟨hl, hc, hb, hr, hk⟩
  · rintro ⟨hl, hc, hb, hr, hk⟩
    exact ⟨hl, hc, hb, hr, hk⟩

theorem validate_eq_ok {tree : Tree T L} :
    tree.validate = .ok () ↔ 0 ≤ tree.numNodes ∧ tree.Columnar ∧
      (∀ nid < tree.nodeCount, tree.SoundAt nid) ∧
      (0 < tree.nodeCount → tree.checkSingleRooted = .ok ()) := by
  have hroot : (if 0 < tree.nodeCount then tree.checkSingleRooted else pure PUnit.unit) = .ok () ↔
      (0 < tree.nodeCount → tree.checkSingleRooted = .ok ()) := by
    split
    · simp_all
    · simp_all [pure, Except.pure]
  simp only [validate, then_eq_ok, require_eq_ok, checkColumnSizes_eq_ok, forM_eq_ok,
    List.mem_range, checkLocal_eq_ok, hroot]

end Arboretum.Tree

import Arboretum.Proofs.Tree.NodeEdits

/-!
The two stores of a tree and the ranges of its nodes in them. An edit adds what it is given to the
end of a store and nothing else, and every range stays in its store as long as 64 bits count what
lies there.
-/

namespace Arboretum

section Ranges

variable {α : Type} {store : Array α} {begins ends : Array UInt64} {first last : UInt64}

/-- Every range between two columns of offsets lies in the store. -/
def RangesIn (store : Array α) (begins ends : Array UInt64) : Prop :=
  ∀ (m : Nat) (first last : UInt64), begins[m]? = some first → ends[m]? = some last →
    first ≤ last ∧ last.toNat ≤ store.size

theorem toNat_storeEnd {n : Nat} (h : n < UInt64.size) : (UInt64.ofNat n).toNat = n :=
  UInt64.toNat_ofNat_of_lt' h

namespace RangesIn

theorem append (h : RangesIn store begins ends) (more : Array α) :
    RangesIn (store ++ more) begins ends := by
  intro m first last hfirst hlast
  obtain ⟨hle, hsize⟩ := h m first last hfirst hlast
  exact ⟨hle, by rw [Array.size_append]; omega⟩

theorem set (h : RangesIn store begins ends) (nid : Nat) (hle : first ≤ last)
    (hsize : last.toNat ≤ store.size) :
    RangesIn store (begins.setIfInBounds nid first) (ends.setIfInBounds nid last) := by
  intro m b e hb he
  by_cases hm : m = nid
  · subst hm
    rw [Tree.eq_of_getElem?_setIfInBounds hb, Tree.eq_of_getElem?_setIfInBounds he]
    exact ⟨hle, hsize⟩
  · rw [Array.getElem?_setIfInBounds_ne (Ne.symm hm)] at hb he
    exact h m b e hb he

theorem push (h : RangesIn store begins ends) (hcolumns : begins.size = ends.size)
    (hsize : first.toNat ≤ store.size) : RangesIn store (begins.push first) (ends.push first) := by
  intro m b e hb he
  rw [Array.getElem?_push] at hb he
  by_cases hm : m = begins.size
  · rw [if_pos hm] at hb
    rw [if_pos (hm.trans hcolumns)] at he
    cases hb
    cases he
    exact ⟨UInt64.le_refl _, hsize⟩
  · rw [if_neg hm] at hb
    rw [if_neg (hcolumns ▸ hm)] at he
    exact h m b e hb he

theorem clear (h : RangesIn store begins ends) (nid : Nat) :
    RangesIn store begins (ends.setIfInBounds nid (begins.getD nid 0)) := by
  intro m b e hb he
  by_cases hm : m = nid
  · subst hm
    obtain ⟨hlt, -⟩ := Array.getElem?_eq_some_iff.mp he
    rw [Array.size_setIfInBounds] at hlt
    obtain ⟨old, hold⟩ := exists_entry rfl hlt
    obtain ⟨hle, hsize⟩ := h m b old hb hold
    have hempty := Tree.eq_of_getElem?_setIfInBounds he
    rw [getD_of_getElem? hb] at hempty
    rw [hempty]
    exact ⟨UInt64.le_refl _, Nat.le_trans (UInt64.le_iff_toNat_le.mp hle) hsize⟩
  · rw [Array.getElem?_setIfInBounds_ne (Ne.symm hm)] at he
    exact h m b e hb he

/-- One node gets what is added to the store, and all later nodes an empty range behind it. -/
theorem extend (h : RangesIn store begins ends) (nid : Nat) {more : Array α}
    (hsize : (store ++ more).size < UInt64.size) :
    RangesIn (store ++ more)
      (begins.mapIdx fun i old =>
        if i = nid then .ofNat store.size
        else if nid < i then .ofNat (store ++ more).size else old)
      (ends.mapIdx fun i old => if nid ≤ i then .ofNat (store ++ more).size else old) := by
  intro m b e hb he
  rw [Array.getElem?_mapIdx] at hb he
  obtain ⟨oldFirst, hfirst, rfl⟩ := Option.map_eq_some_iff.mp hb
  obtain ⟨oldLast, hlast, rfl⟩ := Option.map_eq_some_iff.mp he
  have hend := toNat_storeEnd hsize
  rcases Nat.lt_trichotomy m nid with hm | rfl | hm
  · rw [if_neg (by omega), if_neg (by omega), if_neg (by omega)]
    exact h.append more m oldFirst oldLast hfirst hlast
  · rw [if_pos rfl, if_pos (Nat.le_refl m), hend]
    rw [Array.size_append] at hsize ⊢
    refine ⟨UInt64.le_iff_toNat_le.mpr ?_, Nat.le_refl _⟩
    rw [toNat_storeEnd (by omega), toNat_storeEnd hsize]
    omega
  · rw [if_neg (by omega), if_pos hm, if_pos (Nat.le_of_lt hm), hend]
    exact ⟨UInt64.le_refl _, Nat.le_refl _⟩

end RangesIn

end Ranges

/-- Categories ascend as they are stored. -/
theorem ascending_mergeSort (categories : List UInt32) :
    (categories.mergeSort (· ≤ ·)).Pairwise (· ≤ ·) := by
  have hsorted : (categories.mergeSort (· ≤ ·)).Pairwise fun a b => decide (a ≤ b) = true := by
    refine List.pairwise_mergeSort (fun a b c hab hbc => ?_) (fun a b => ?_) categories
    · exact decide_eq_true (UInt32.le_trans (of_decide_eq_true hab) (of_decide_eq_true hbc))
    · simpa using UInt32.le_total a b
  exact hsorted.imp of_decide_eq_true

namespace Tree

variable {T L : Type}

/-- The ranges of all nodes lie in their stores. -/
structure RangesFit (tree : Tree T L) : Prop where
  leaf : RangesIn tree.leafStore tree.leafBegin tree.leafEnd
  category : RangesIn tree.categoryStore tree.categoryBegin tree.categoryEnd

/-- A tree with more in its stores. -/
structure Grown (leaves categories : Nat) (before after : Tree T L) : Prop where
  leafStore : after.leafStore.size = before.leafStore.size + leaves
  categoryStore : after.categoryStore.size = before.categoryStore.size + categories
  ranges : after.Bounded → before.RangesFit → after.RangesFit

section Edits

variable {nid : Nat} {tree : Tree T L}

theorem setNumericalSplit_grown (feature : UInt32) (threshold : T) (defaultLeft : Bool)
    (comparison : Comparison) :
    (setNumericalSplit nid feature threshold defaultLeft comparison : Edit (Tree T L) Unit).Leads
      tree fun _ after => Grown 0 0 tree after := by
  rw [setNumericalSplit]
  exact checkNode_leads fun _ => .lift_bind fun _ _ =>
    .of_eq rfl ⟨rfl, rfl, fun _ h => ⟨h.leaf, h.category⟩⟩

theorem setLeaf_grown (value : L) : (setLeaf nid value : Edit (Tree T L) Unit).Leads tree
    fun _ after => Grown 0 0 tree after := by
  rw [setLeaf]
  exact checkNode_leads fun _ =>
    .of_eq rfl ⟨rfl, rfl, fun _ h => ⟨h.leaf.clear nid, h.category⟩⟩

theorem setLeafVector_grown (values : Array L) :
    (setLeafVector nid values : Edit (Tree T L) Unit).Leads tree
      fun _ after => Grown values.size 0 tree after := by
  rw [setLeafVector]
  refine checkNode_leads fun _ => .of_eq rfl
    ⟨Array.size_append, rfl, fun hb h => ⟨(h.leaf.append values).set nid ?_ ?_, h.category⟩⟩
  · have hlast := hb.leafStore
    rw [Array.size_append] at hlast
    rw [UInt64.le_iff_toNat_le, toNat_storeEnd hlast, toNat_storeEnd (by omega)]
    omega
  · have hlast := hb.leafStore
    rw [Array.size_append] at hlast ⊢
    exact Nat.le_of_eq (toNat_storeEnd hlast)

theorem setCategoricalSplit_grown (feature : UInt32) (defaultLeft : Bool)
    (categories : List UInt32) (matchGoesRight : Bool) :
    (setCategoricalSplit nid feature defaultLeft categories matchGoesRight :
      Edit (Tree T L) Unit).Leads tree
        fun _ after => Grown 0 categories.length tree after := by
  rw [setCategoricalSplit]
  refine checkNode_leads fun _ => .lift_bind fun _ _ => .get_bind ?_
  cases tree.laterCategories? nid with
  | some later => exact .inl ⟨_, rfl⟩
  | none =>
    have hstore : (tree.categoryStore ++ (categories.mergeSort (· ≤ ·)).toArray).size =
        tree.categoryStore.size + categories.length := by
      have hsorted : (categories.mergeSort (· ≤ ·)).toArray.size = categories.length :=
        List.length_mergeSort categories
      rw [Array.size_append, hsorted]
    exact .of_eq rfl
      ⟨rfl, hstore, fun hb h => ⟨h.leaf, h.category.extend nid hb.categoryStore⟩⟩

theorem setGain_grown (gain : Double) : (setGain nid gain : Edit (Tree T L) Unit).Leads tree
    fun _ after => Grown 0 0 tree after := by
  rw [setGain]
  exact checkNode_leads fun _ => .of_eq rfl ⟨rfl, rfl, fun _ h => ⟨h.leaf, h.category⟩⟩

theorem setDataCount_grown (count : UInt64) :
    (setDataCount nid count : Edit (Tree T L) Unit).Leads tree
      fun _ after => Grown 0 0 tree after := by
  rw [setDataCount]
  exact checkNode_leads fun _ => .of_eq rfl ⟨rfl, rfl, fun _ h => ⟨h.leaf, h.category⟩⟩

theorem setSumHess_grown (sum : Double) : (setSumHess nid sum : Edit (Tree T L) Unit).Leads tree
    fun _ after => Grown 0 0 tree after := by
  rw [setSumHess]
  exact checkNode_leads fun _ => .of_eq rfl ⟨rfl, rfl, fun _ h => ⟨h.leaf, h.category⟩⟩

end Edits

theorem rangesFit_empty : (empty : Tree T L).RangesFit := by
  constructor
  all_goals
    intro m first last h
    cases h

theorem pushNode_grown [Numeric T] [Numeric L] {tree : Tree T L} (hc : tree.Columnar) :
    Grown 0 0 tree tree.pushNode := by
  have columns := hc.columns
  refine ⟨rfl, rfl, fun hb h => ⟨h.leaf.push (columns.leafBegin.trans columns.leafEnd.symm) ?_,
    h.category.push (columns.categoryBegin.trans columns.categoryEnd.symm) ?_⟩⟩
  · exact Nat.le_of_eq (toNat_storeEnd hb.leafStore)
  · exact Nat.le_of_eq (toNat_storeEnd hb.categoryStore)

theorem RangesFit.at {tree : Tree T L} (h : tree.RangesFit) (hc : tree.Columnar) {nid : Nat}
    (hnid : nid < tree.nodeCount) :
    (tree.leafBegin.getD nid 0 ≤ tree.leafEnd.getD nid 0 ∧
      (tree.leafEnd.getD nid 0).toNat ≤ tree.leafStore.size) ∧
    tree.categoryBegin.getD nid 0 ≤ tree.categoryEnd.getD nid 0 ∧
      (tree.categoryEnd.getD nid 0).toNat ≤ tree.categoryStore.size := by
  have columns := hc.columns
  obtain ⟨lb, hlb⟩ := exists_entry columns.leafBegin hnid
  obtain ⟨le, hle⟩ := exists_entry columns.leafEnd hnid
  obtain ⟨cb, hcb⟩ := exists_entry columns.categoryBegin hnid
  obtain ⟨ce, hce⟩ := exists_entry columns.categoryEnd hnid
  rw [getD_of_getElem? hlb, getD_of_getElem? hle, getD_of_getElem? hcb, getD_of_getElem? hce]
  exact ⟨h.leaf nid lb le hlb hle, h.category nid cb ce hcb hce⟩

end Tree

end Arboretum

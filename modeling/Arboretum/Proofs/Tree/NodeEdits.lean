import Arboretum.Proofs.Builder.Nodes
import Arboretum.Proofs.Tree.Walk

/-!
What the edits of a tree do to the nodes that it shows. An edit of one node changes what its name
says at that node and nothing at any other, as long as 64 bits count what lies in the stores; a new
node is a leaf without output behind all others.
-/

namespace Arboretum

section Columns

variable {α : Type} {column store more : Array α} {first last : UInt64} {i m : Nat} {a b : α}

theorem getElem?_set_self (h : column[m]? = some b) : (column.setIfInBounds m a)[m]? = some a := by
  obtain ⟨hlt, -⟩ := Array.getElem?_eq_some_iff.mp h
  exact Array.getElem?_setIfInBounds_self_of_lt hlt

theorem getElem?_set_other (hne : m ≠ i) (h : column[m]? = some b) :
    (column.setIfInBounds i a)[m]? = some b := by
  rw [Array.getElem?_setIfInBounds_ne (Ne.symm hne), h]

private theorem storeRange?_self (offset : UInt64) : storeRange? store offset offset = some #[] :=
  if_pos (UInt64.le_refl offset)

/-- A range stays what it is when its store grows. -/
theorem storeRange?_append {range : Array α} (h : storeRange? store first last = some range) :
    storeRange? (store ++ more) first last = some range := by
  rw [storeRange?] at h ⊢
  by_cases hempty : last ≤ first
  · rw [if_pos hempty] at h ⊢
    exact h
  · rw [if_neg hempty] at h ⊢
    by_cases hsize : last.toNat ≤ store.size
    · have hnone : last.toNat - store.size = 0 := by omega
      rw [if_pos hsize] at h
      rw [Array.size_append, if_pos (by omega), ← h, Array.extract_append, hnone]
      simp
    · rw [if_neg hsize] at h
      cases h

theorem storeRange?_appended (h : (store ++ more).size < UInt64.size) :
    storeRange? (store ++ more) (.ofNat store.size) (.ofNat (store.size + more.size)) =
      some more := by
  rw [Array.size_append] at h
  have hfirst : (UInt64.ofNat store.size).toNat = store.size :=
    UInt64.toNat_ofNat_of_lt' (by omega)
  have hlast : (UInt64.ofNat (store.size + more.size)).toNat = store.size + more.size :=
    UInt64.toNat_ofNat_of_lt' h
  simp only [storeRange?, UInt64.le_iff_toNat_le, hfirst, hlast, Array.size_append]
  by_cases hempty : more.size = 0
  · rw [if_pos (by omega), Array.eq_empty_of_size_eq_zero hempty]
  · rw [if_neg (by omega), if_pos (Nat.le_refl _)]
    simp

section Records

variable {flags : Array Bool} {values : Array α} {old : Option α}

private theorem recorded?_eq_some_iff : recorded? flags values m = some old ↔
    ∃ value flag, values[m]? = some value ∧ flags[m]? = some flag ∧
      (if flag then some value else none) = old := by
  rw [recorded?]
  constructor
  · intro h
    obtain ⟨value, hvalue, h⟩ := Option.bind_eq_some_iff.mp h
    obtain ⟨flag, hflag, h⟩ := Option.bind_eq_some_iff.mp h
    refine ⟨value, flag, hvalue, hflag, ?_⟩
    cases flag <;> exact Option.some.inj h
  · rintro ⟨value, flag, hvalue, hflag, rfl⟩
    rw [hvalue, hflag]
    cases flag <;> rfl

private theorem recorded?_set (h : recorded? flags values m = some old) (value : α) :
    recorded? (flags.setIfInBounds m true) (values.setIfInBounds m value) m =
      some (some value) := by
  obtain ⟨before, flag, hvalue, hflag, -⟩ := recorded?_eq_some_iff.mp h
  exact recorded?_eq_some_iff.mpr
    ⟨value, true, getElem?_set_self hvalue, getElem?_set_self hflag, rfl⟩

private theorem recorded?_set_other (hne : m ≠ i) (h : recorded? flags values m = some old)
    (value : α) :
    recorded? (flags.setIfInBounds i true) (values.setIfInBounds i value) m = some old := by
  obtain ⟨before, flag, hvalue, hflag, heq⟩ := recorded?_eq_some_iff.mp h
  exact recorded?_eq_some_iff.mpr
    ⟨before, flag, getElem?_set_other hne hvalue, getElem?_set_other hne hflag, heq⟩

private theorem recorded?_push (h : recorded? flags values m = some old) (flag : Bool) (value : α) :
    recorded? (flags.push flag) (values.push value) m = some old := by
  obtain ⟨before, set, hvalue, hflag, heq⟩ := recorded?_eq_some_iff.mp h
  obtain ⟨hlt, -⟩ := Array.getElem?_eq_some_iff.mp hvalue
  obtain ⟨hlt', -⟩ := Array.getElem?_eq_some_iff.mp hflag
  exact recorded?_eq_some_iff.mpr ⟨before, set, by rw [Tree.getElem?_push_of_lt rfl hlt, hvalue],
    by rw [Tree.getElem?_push_of_lt rfl hlt', hflag], heq⟩

end Records

end Columns

variable {T L : Type}

/-- A node as it is appended: a leaf without output. -/
def Node.fresh [Numeric T] [Numeric L] : Node T L where
  kind := .leaf
  left := noChild
  right := noChild
  feature := (-1 : Int32).toUInt32
  defaultLeft := false
  threshold := Numeric.zero
  comparison := .never
  leafValue := Numeric.zero
  leafVector := #[]
  categories := #[]
  matchGoesRight := false
  dataCount := none
  sumHess := none
  gain := none

namespace Tree

/-- The ends of both stores can be told from all other offsets. -/
structure Bounded (tree : Tree T L) : Prop where
  leafStore : tree.leafStore.size < UInt64.size
  categoryStore : tree.categoryStore.size < UInt64.size

instance (tree : Tree T L) : Decidable tree.Bounded :=
  decidable_of_iff
    (tree.leafStore.size < UInt64.size ∧ tree.categoryStore.size < UInt64.size)
    ⟨fun h => ⟨h.1, h.2⟩, fun h => ⟨h.leafStore, h.categoryStore⟩⟩

/-- A tree in which one node has been changed. The stores may have grown, and with `categorical` the
tree now says that it tests for membership. -/
structure Edited (nid : Nat) (change : Node T L → Node T L) (categorical : Bool)
    (before after : Tree T L) : Prop where
  numNodes : after.numNodes = before.numNodes
  categorical : after.hasCategoricalSplit = (before.hasCategoricalSplit || categorical)
  columnar : before.Columnar → after.Columnar
  bounded : after.Bounded → before.Bounded
  self : before.Columnar → after.Bounded → ∀ node, before.node? nid = some node →
    after.node? nid = some (change node)
  other : before.Columnar → after.Bounded → ∀ m ≠ nid, ∀ node, before.node? m = some node →
    after.node? m = some node

theorem Edited.nodeCount_eq {nid : Nat} {change : Node T L → Node T L} {categorical : Bool}
    {before after : Tree T L} (h : Edited nid change categorical before after) :
    after.nodeCount = before.nodeCount := by
  rw [nodeCount, h.numNodes, nodeCount]

section Edits

variable {nid : Nat} {tree : Tree T L}

theorem setNumericalSplit_edited (feature : UInt32) (threshold : T) (defaultLeft : Bool)
    (comparison : Comparison) :
    (setNumericalSplit nid feature threshold defaultLeft comparison : Edit (Tree T L) Unit).Leads
      tree fun _ after => Edited nid (fun node => { node with
        kind := .numericalTest
        feature := feature
        defaultLeft := defaultLeft
        threshold := threshold
        comparison := comparison
        matchGoesRight := false }) false tree after := by
  rw [setNumericalSplit]
  refine checkNode_leads fun _ => .lift_bind fun _ _ => .of_eq rfl ⟨rfl, (Bool.or_false _).symm,
    fun hc => ?_, fun hb => ⟨hb.1, hb.2⟩, fun _ _ node h => ?_, fun _ _ m hm node h => ?_⟩
  · simpa [Columnar, columnSizes, nodeCount] using hc
  · obtain ⟨hkind, hleft, hright, ⟨old, hfeature, -⟩, hdefault, hthreshold, hcomparison, hvalue,
      hvector, hcategories, hgoes, hrest⟩ := node?_eq_some_iff.mp h
    exact node?_eq_some_iff.mpr ⟨getElem?_set_self hkind, hleft, hright,
      ⟨_, getElem?_set_self hfeature, UInt32.toUInt32_toInt32 feature⟩, getElem?_set_self hdefault,
      getElem?_set_self hthreshold, getElem?_set_self hcomparison, hvalue, hvector, hcategories,
      getElem?_set_self hgoes, hrest⟩
  · obtain ⟨hkind, hleft, hright, ⟨old, hfeature, hcast⟩, hdefault, hthreshold, hcomparison, hvalue,
      hvector, hcategories, hgoes, hrest⟩ := node?_eq_some_iff.mp h
    exact node?_eq_some_iff.mpr ⟨getElem?_set_other hm hkind, hleft, hright,
      ⟨old, getElem?_set_other hm hfeature, hcast⟩, getElem?_set_other hm hdefault,
      getElem?_set_other hm hthreshold, getElem?_set_other hm hcomparison, hvalue, hvector,
      hcategories, getElem?_set_other hm hgoes, hrest⟩

theorem setLeaf_edited (value : L) :
    (setLeaf nid value : Edit (Tree T L) Unit).Leads tree fun _ after =>
      Edited nid (fun node => { node with
        kind := .leaf
        left := noChild
        right := noChild
        leafValue := value
        leafVector := #[] }) false tree after := by
  rw [setLeaf]
  refine checkNode_leads fun _ => .of_eq rfl ⟨rfl, (Bool.or_false _).symm,
    fun hc => ?_, fun hb => ⟨hb.1, hb.2⟩, fun _ _ node h => ?_, fun _ _ m hm node h => ?_⟩
  · simpa [Columnar, columnSizes, nodeCount, cutBelow] using hc
  · obtain ⟨hkind, hleft, hright, hfeature, hdefault, hthreshold, hcomparison, hvalue,
      ⟨first, last, hfirst, hlast, -⟩, hrest⟩ := node?_eq_some_iff.mp h
    have hbegin : tree.leafBegin.getD nid 0 = first := getD_of_getElem? hfirst
    refine node?_eq_some_iff.mpr ⟨getElem?_set_self hkind, getElem?_set_self hleft,
      getElem?_set_self hright, hfeature, hdefault, hthreshold, hcomparison,
      getElem?_set_self hvalue, ⟨first, first, hfirst, ?_, storeRange?_self first⟩, hrest⟩
    rw [← hbegin]
    exact getElem?_set_self hlast
  · obtain ⟨hkind, hleft, hright, hfeature, hdefault, hthreshold, hcomparison, hvalue,
      ⟨first, last, hfirst, hlast, hvector⟩, hrest⟩ := node?_eq_some_iff.mp h
    exact node?_eq_some_iff.mpr ⟨getElem?_set_other hm hkind, getElem?_set_other hm hleft,
      getElem?_set_other hm hright, hfeature, hdefault, hthreshold, hcomparison,
      getElem?_set_other hm hvalue, ⟨first, last, hfirst, getElem?_set_other hm hlast, hvector⟩,
      hrest⟩

theorem setLeafVector_edited (values : Array L) :
    (setLeafVector nid values : Edit (Tree T L) Unit).Leads tree fun _ after =>
      Edited nid (fun node => { node with
        kind := .leaf
        left := noChild
        right := noChild
        leafVector := values }) false tree after := by
  rw [setLeafVector]
  refine checkNode_leads fun _ => .of_eq rfl ⟨rfl, (Bool.or_false _).symm,
    fun hc => ?_, fun hb => ⟨?_, hb.2⟩, fun _ hb node h => ?_, fun _ _ m hm node h => ?_⟩
  · simpa [Columnar, columnSizes, nodeCount, cutBelow] using hc
  · have hsize := hb.leafStore
    rw [Array.size_append] at hsize
    omega
  · obtain ⟨hkind, hleft, hright, hfeature, hdefault, hthreshold, hcomparison, hvalue,
      ⟨first, last, hfirst, hlast, -⟩, hrest⟩ := node?_eq_some_iff.mp h
    exact node?_eq_some_iff.mpr ⟨getElem?_set_self hkind, getElem?_set_self hleft,
      getElem?_set_self hright, hfeature, hdefault, hthreshold, hcomparison, hvalue,
      ⟨_, _, getElem?_set_self hfirst, getElem?_set_self hlast,
        storeRange?_appended hb.leafStore⟩, hrest⟩
  · obtain ⟨hkind, hleft, hright, hfeature, hdefault, hthreshold, hcomparison, hvalue,
      ⟨first, last, hfirst, hlast, hvector⟩, hrest⟩ := node?_eq_some_iff.mp h
    exact node?_eq_some_iff.mpr ⟨getElem?_set_other hm hkind, getElem?_set_other hm hleft,
      getElem?_set_other hm hright, hfeature, hdefault, hthreshold, hcomparison, hvalue,
      ⟨first, last, getElem?_set_other hm hfirst, getElem?_set_other hm hlast,
        storeRange?_append hvector⟩, hrest⟩

theorem node?_statistics {m : Nat} {node : Node T L} (h : tree.node? m = some node)
    {hasDataCount hasSumHess hasGain : Array Bool} {dataCount : Array UInt64}
    {sumHess gain : Array Double} {count : Option UInt64} {sum amount : Option Double}
    (hcount : recorded? hasDataCount dataCount m = some count)
    (hsum : recorded? hasSumHess sumHess m = some sum)
    (hgain : recorded? hasGain gain m = some amount) :
    ({ tree with
      dataCount := dataCount
      hasDataCount := hasDataCount
      sumHess := sumHess
      hasSumHess := hasSumHess
      gain := gain
      hasGain := hasGain } : Tree T L).node? m =
        some { node with dataCount := count, sumHess := sum, gain := amount } := by
  obtain ⟨hkind, hleft, hright, hfeature, hdefault, hthreshold, hcomparison, hvalue, hvector,
    hcategories, hgoes, -⟩ := node?_eq_some_iff.mp h
  exact node?_eq_some_iff.mpr ⟨hkind, hleft, hright, hfeature, hdefault, hthreshold, hcomparison,
    hvalue, hvector, hcategories, hgoes, hcount, hsum, hgain⟩

private theorem recorded?_of_node? {m : Nat} {node : Node T L} (h : tree.node? m = some node) :
    recorded? tree.hasDataCount tree.dataCount m = some node.dataCount ∧
      recorded? tree.hasSumHess tree.sumHess m = some node.sumHess ∧
      recorded? tree.hasGain tree.gain m = some node.gain := by
  obtain ⟨-, -, -, -, -, -, -, -, -, -, -, hstatistics⟩ := node?_eq_some_iff.mp h
  exact hstatistics

theorem setGain_edited (gain : Double) :
    (setGain nid gain : Edit (Tree T L) Unit).Leads tree fun _ after =>
      Edited nid (fun node => { node with gain := some gain }) false tree after := by
  rw [setGain]
  refine checkNode_leads fun _ => .of_eq rfl ⟨rfl, (Bool.or_false _).symm,
    fun hc => ?_, fun hb => ⟨hb.1, hb.2⟩, fun _ _ node h => ?_, fun _ _ m hm node h => ?_⟩
  · simpa [Columnar, columnSizes, nodeCount] using hc
  · obtain ⟨hcount, hsum, hgain⟩ := recorded?_of_node? h
    exact node?_statistics h hcount hsum (recorded?_set hgain gain)
  · obtain ⟨hcount, hsum, hgain⟩ := recorded?_of_node? h
    exact node?_statistics h hcount hsum (recorded?_set_other hm hgain gain)

theorem setDataCount_edited (count : UInt64) :
    (setDataCount nid count : Edit (Tree T L) Unit).Leads tree fun _ after =>
      Edited nid (fun node => { node with dataCount := some count }) false tree after := by
  rw [setDataCount]
  refine checkNode_leads fun _ => .of_eq rfl ⟨rfl, (Bool.or_false _).symm,
    fun hc => ?_, fun hb => ⟨hb.1, hb.2⟩, fun _ _ node h => ?_, fun _ _ m hm node h => ?_⟩
  · simpa [Columnar, columnSizes, nodeCount] using hc
  · obtain ⟨hcount, hsum, hgain⟩ := recorded?_of_node? h
    exact node?_statistics h (recorded?_set hcount count) hsum hgain
  · obtain ⟨hcount, hsum, hgain⟩ := recorded?_of_node? h
    exact node?_statistics h (recorded?_set_other hm hcount count) hsum hgain

theorem setSumHess_edited (sum : Double) :
    (setSumHess nid sum : Edit (Tree T L) Unit).Leads tree fun _ after =>
      Edited nid (fun node => { node with sumHess := some sum }) false tree after := by
  rw [setSumHess]
  refine checkNode_leads fun _ => .of_eq rfl ⟨rfl, (Bool.or_false _).symm,
    fun hc => ?_, fun hb => ⟨hb.1, hb.2⟩, fun _ _ node h => ?_, fun _ _ m hm node h => ?_⟩
  · simpa [Columnar, columnSizes, nodeCount] using hc
  · obtain ⟨hcount, hsum, hgain⟩ := recorded?_of_node? h
    exact node?_statistics h hcount (recorded?_set hsum sum) hgain
  · obtain ⟨hcount, hsum, hgain⟩ := recorded?_of_node? h
    exact node?_statistics h hcount (recorded?_set_other hm hsum sum) hgain

private theorem later_of_laterCategories? (h : tree.laterCategories? nid = none) {m : Nat}
    (hm : nid < m) (hlt : m < tree.nodeCount) :
    tree.categoryBegin[m]? = some (.ofNat tree.categoryStore.size) ∧
      tree.categoryEnd[m]? = some (.ofNat tree.categoryStore.size) := by
  rw [laterCategories?, List.find?_eq_none] at h
  have hlater := h m (List.mem_range.mpr hlt)
  simpa [hm] using hlater

theorem setCategoricalSplit_edited (feature : UInt32) (defaultLeft : Bool)
    (categories : List UInt32) (matchGoesRight : Bool) :
    (setCategoricalSplit nid feature defaultLeft categories matchGoesRight :
      Edit (Tree T L) Unit).Leads tree fun _ after => Edited nid (fun node => { node with
        kind := .categoricalTest
        feature := feature
        defaultLeft := defaultLeft
        comparison := .never
        categories := (categories.mergeSort (· ≤ ·)).toArray
        matchGoesRight := matchGoesRight }) true tree after := by
  rw [setCategoricalSplit]
  refine checkNode_leads fun _ => .lift_bind fun _ _ => .get_bind ?_
  cases hlater : tree.laterCategories? nid with
  | some later => exact .inl ⟨_, rfl⟩
  | none =>
    refine .of_eq rfl ⟨rfl, (Bool.or_true _).symm, fun hc => ?_, fun hb => ⟨hb.1, ?_⟩,
      fun hc hb node h => ?_, fun hc hb m hm node h => ?_⟩
    · simpa [Columnar, columnSizes, nodeCount, appendCategories] using hc
    · have hsize := hb.categoryStore
      simp only [appendCategories, Array.size_append] at hsize
      omega
    · obtain ⟨hkind, hleft, hright, ⟨old, hfeature, -⟩, hdefault, hthreshold, hcomparison, hvalue,
        hvector, ⟨first, last, hfirst, hlast, -⟩, hgoes, hrest⟩ := node?_eq_some_iff.mp h
      refine node?_eq_some_iff.mpr ⟨getElem?_set_self hkind, hleft, hright,
        ⟨_, getElem?_set_self hfeature, UInt32.toUInt32_toInt32 feature⟩,
        getElem?_set_self hdefault, hthreshold, getElem?_set_self hcomparison, hvalue, hvector,
        ⟨.ofNat tree.categoryStore.size,
          .ofNat (tree.categoryStore.size + (categories.mergeSort (· ≤ ·)).toArray.size),
          ?_, ?_, storeRange?_appended hb.categoryStore⟩, getElem?_set_self hgoes, hrest⟩
      · simp [appendCategories, hfirst]
      · simp [appendCategories, hlast]
    · obtain ⟨hkind, hleft, hright, ⟨old, hfeature, hcast⟩, hdefault, hthreshold, hcomparison,
        hvalue, hvector, ⟨first, last, hfirst, hlast, hcategories⟩, hgoes, hrest⟩ :=
          node?_eq_some_iff.mp h
      refine node?_eq_some_iff.mpr ⟨getElem?_set_other hm hkind, hleft, hright,
        ⟨old, getElem?_set_other hm hfeature, hcast⟩, getElem?_set_other hm hdefault, hthreshold,
        getElem?_set_other hm hcomparison, hvalue, hvector, ?_, getElem?_set_other hm hgoes, hrest⟩
      by_cases hbehind : nid < m
      · -- the empty range of a later node moves to the new end of the store
        have hlt : m < tree.nodeCount := lt_of_getElem? hc.columns.kind hkind
        obtain ⟨hbegin, hend⟩ := later_of_laterCategories? hlater hbehind hlt
        rw [hbegin] at hfirst
        rw [hend] at hlast
        cases hfirst
        cases hlast
        rw [storeRange?_self] at hcategories
        refine ⟨_, .ofNat (tree.categoryStore ++ (categories.mergeSort (· ≤ ·)).toArray).size,
          ?_, ?_, (storeRange?_self _).trans hcategories⟩
        · simp only [appendCategories, Array.getElem?_mapIdx, hbegin, Option.map_some, if_neg hm,
            if_pos hbehind]
        · simp only [appendCategories, Array.getElem?_mapIdx, hend, Option.map_some,
            if_pos (Nat.le_of_lt hbehind)]
      · refine ⟨first, last, ?_, ?_, storeRange?_append hcategories⟩
        · simp only [appendCategories, Array.getElem?_mapIdx, hfirst, Option.map_some, if_neg hm,
            if_neg hbehind]
        · simp only [appendCategories, Array.getElem?_mapIdx, hlast, Option.map_some]
          rw [if_neg (by omega)]

end Edits

theorem columnar_pushNode [Numeric T] [Numeric L] {tree : Tree T L} (hpos : 0 ≤ tree.numNodes)
    (hlt : tree.numNodes < Int32.maxValue) (hc : tree.Columnar) : tree.pushNode.Columnar := by
  obtain ⟨-, hcount⟩ := nodeCount_pushNode hpos hlt
  rw [Columnar, hcount]
  simpa [Columnar, columnSizes, pushNode] using hc

/-- A new node stands behind all others, which stay as they are. -/
theorem node?_pushNode [Numeric T] [Numeric L] {tree : Tree T L} (hc : tree.Columnar) :
    (∀ m node, tree.node? m = some node → tree.pushNode.node? m = some node) ∧
      tree.pushNode.node? tree.nodeCount = some Node.fresh := by
  have columns := hc.columns
  have hpush : ∀ {α : Type} {column : Array α} {m : Nat} {a b : α}, column[m]? = some b →
      (column.push a)[m]? = some b := by
    intro α column m a b h
    obtain ⟨hlt, -⟩ := Array.getElem?_eq_some_iff.mp h
    rw [getElem?_push_of_lt rfl hlt, h]
  have hlast : ∀ {α : Type} {column : Array α} {a : α}, column.size = tree.nodeCount →
      (column.push a)[tree.nodeCount]? = some a := by
    intro α column a h
    rw [← h, Array.getElem?_push_size]
  constructor
  · intro m node h
    obtain ⟨hkind, hleft, hright, ⟨old, hfeature, hcast⟩, hdefault, hthreshold, hcomparison,
      hvalue, ⟨lb, le, hlb, hle, hvector⟩, ⟨cb, ce, hcb, hce, hcategories⟩, hgoes, hcount, hsum,
      hgain⟩ := node?_eq_some_iff.mp h
    exact node?_eq_some_iff.mpr ⟨hpush hkind, hpush hleft, hpush hright,
      ⟨old, hpush hfeature, hcast⟩, hpush hdefault, hpush hthreshold, hpush hcomparison,
      hpush hvalue, ⟨lb, le, hpush hlb, hpush hle, hvector⟩,
      ⟨cb, ce, hpush hcb, hpush hce, hcategories⟩, hpush hgoes, recorded?_push hcount _ _,
      recorded?_push hsum _ _, recorded?_push hgain _ _⟩
  · exact node?_eq_some_iff.mpr ⟨hlast columns.kind, hlast columns.left, hlast columns.right,
      ⟨_, hlast columns.feature, rfl⟩, hlast columns.defaultLeft, hlast columns.threshold,
      hlast columns.comparison, hlast columns.leafValue,
      ⟨_, _, hlast columns.leafBegin, hlast columns.leafEnd, storeRange?_self _⟩,
      ⟨_, _, hlast columns.categoryBegin, hlast columns.categoryEnd, storeRange?_self _⟩,
      hlast columns.matchGoesRight,
      recorded?_eq_some_iff.mpr ⟨_, _, hlast columns.dataCount, hlast columns.hasDataCount, rfl⟩,
      recorded?_eq_some_iff.mpr ⟨_, _, hlast columns.sumHess, hlast columns.hasSumHess, rfl⟩,
      recorded?_eq_some_iff.mpr ⟨_, _, hlast columns.gain, hlast columns.hasGain, rfl⟩⟩

end Tree

end Arboretum

import Arboretum.Predict.Check
import Arboretum.Proofs.Tree.Walk

/-!
What the check before a prediction establishes: which metadata the computation may rely on, where
the output of each tree may go, and what each node offers.
-/

namespace Arboretum

/-- The target and class of a tree are there, and ask for leaf outputs of the given shape. -/
structure Routed (info : ModelInfo) (shape : LeafShape) (target class_ : Int32) : Prop where
  target_lt : target ≠ allSlots → 0 ≤ target ∧ target.toUInt32 < info.numTarget
  class_lt : class_ = allSlots ∨ (0 ≤ class_ ∧ class_.toUInt32 <
    if target = allSlots then largestClassCount info.numClass
    else info.numClass.getD target.toInt.toNat 0)
  shape_eq : LeafShape.ofRouting target class_ info.numTarget (largestClassCount info.numClass) =
    shape

/-- A node whose leaf output or whose test fits the metadata. -/
structure NodeFits {T L : Type} (info : ModelInfo) (kind : PredictKind) (shape : LeafShape)
    (tree : Nat) (node : Node T L) : Prop where
  vector_size : node.isLeaf = true → kind ≠ .leafId → node.hasLeafVector = true →
    node.leafVector.size = shape.size
  scalar_routing : node.isLeaf = true → kind.sums = true → node.hasLeafVector = false →
    info.targetId.getD tree 0 ≠ allSlots ∧ info.classId.getD tree 0 ≠ allSlots
  feature_lt : node.isLeaf = false → node.feature.toNat < info.numFeature.toInt.toNat
  comparison : node.isLeaf = false → node.kind = .categoricalTest ∨ node.comparison ≠ .never

/-- A tree with nodes, all of which fit the metadata. -/
structure TreeFits {T L : Type} (info : ModelInfo) (kind : PredictKind) (shape : LeafShape)
    (index : Nat) (tree : Tree T L) : Prop where
  nonempty : tree.numNodes ≠ 0
  valid : tree.validate = .ok ()
  node : ∀ nid node, tree.node? nid = some node → NodeFits info kind shape index node

namespace Model

/-- A model that a prediction of the given kind can be computed for. -/
structure Usable (model : Model) (kind : PredictKind) (shape : LeafShape) : Prop where
  numTarget_pos : 1 ≤ model.info.numTarget
  numClass_size : model.info.numClass.size = model.info.numTarget.toNat
  numClass_pos : ∀ count ∈ model.info.numClass, 1 ≤ count
  leafVectorShape_eq : model.info.leafVectorShape = #[shape.targets, shape.classes]
  targetId_size : model.info.targetId.size = model.numTree
  classId_size : model.info.classId.size = model.numTree
  baseScores_size : kind.sums = true →
    model.info.baseScores.size = model.info.numTarget.toNat * model.maxNumClass.toNat
  routed : kind.sums = true → ∀ (tree : Nat) (target class_ : Int32),
    model.info.targetId[tree]? = some target → model.info.classId[tree]? = some class_ →
    Routed model.info shape target class_
  fits : ∀ (index : Nat) (tree : Tree model.pairing.Threshold model.pairing.Leaf),
    model.trees[index]? = some tree → TreeFits model.info kind shape index tree

theorem checkRouting_eq_ok {info : ModelInfo} {tree : Nat} {shape : LeafShape}
    {target class_ : Int32} :
    checkRouting info tree shape target class_ = .ok () ↔ Routed info shape target class_ := by
  by_cases htarget : target = allSlots
  · subst htarget
    simp only [checkRouting, ne_eq, not_true, if_false, if_true, then_eq_ok, require_eq_ok]
    exact ⟨fun h => ⟨fun hne => absurd rfl hne, h.1, h.2⟩, fun h => ⟨h.class_lt, h.shape_eq⟩⟩
  · simp only [checkRouting, ne_eq, htarget, not_false_eq_true, if_true, then_eq_ok, require_eq_ok]
    refine ⟨fun h => ⟨fun _ => h.1, ?_, h.2.2⟩, fun h => ⟨h.target_lt htarget, ?_, h.shape_eq⟩⟩
    · rw [if_neg htarget]
      exact h.2.1
    · have hc := h.class_lt
      rwa [if_neg htarget] at hc

theorem checkNode_eq_ok {T L : Type} {info : ModelInfo} {kind : PredictKind} {shape : LeafShape}
    {tree nid : Nat} {node : Node T L} :
    checkNode info kind shape tree nid node = .ok () ↔ NodeFits info kind shape tree node := by
  rw [checkNode]
  cases hleaf : node.isLeaf with
  | true =>
    rw [if_pos rfl]
    by_cases hkind : kind = .leafId
    · subst hkind
      rw [if_neg (by simp)]
      refine ⟨fun _ => ⟨?_, ?_, ?_, ?_⟩, fun _ => rfl⟩ <;> simp [hleaf, PredictKind.sums]
    · simp only [if_pos hkind, then_eq_ok, require_eq_ok]
      constructor
      · rintro ⟨hv, hs⟩
        refine ⟨fun _ _ h => by simpa [h] using hv, fun _ hk h => by simpa [h, hk] using hs, ?_, ?_⟩
        · simp [hleaf]
        · simp [hleaf]
      · intro h
        constructor
        · cases hv : node.hasLeafVector with
          | false => exact .inl rfl
          | true => exact .inr (h.vector_size hleaf hkind hv)
        · cases hv : node.hasLeafVector with
          | true => exact .inl rfl
          | false =>
            cases hk : kind.sums with
            | false => exact .inr (.inl rfl)
            | true => exact .inr (.inr (h.scalar_routing hleaf hk hv))
  | false =>
    simp only [Bool.false_eq_true, if_false, then_eq_ok, require_eq_ok]
    constructor
    · rintro ⟨hf, hc⟩
      refine ⟨?_, ?_, fun _ => hf, fun _ => hc⟩
      · simp [hleaf]
      · simp [hleaf]
    · intro h
      exact ⟨h.feature_lt hleaf, h.comparison hleaf⟩

theorem checkTree_eq_ok {T L : Type} {info : ModelInfo} {kind : PredictKind} {shape : LeafShape}
    {tree : Tree T L} {index : Nat} :
    checkTree info kind shape tree index = .ok () ↔ TreeFits info kind shape index tree := by
  simp only [checkTree, then_eq_ok, require_eq_ok, forM_eq_ok, checkNode_eq_ok]
  constructor
  · rintro ⟨hne, hvalid, hnode⟩
    refine ⟨hne, hvalid, fun nid node h => hnode (node, nid) ?_⟩
    rw [List.mem_zipIdx_iff_getElem?, Tree.getElem?_nodes (.of_validate hvalid)]
    exact h
  · intro h
    refine ⟨h.nonempty, h.valid, ?_⟩
    rintro ⟨node, i⟩ hmem
    obtain ⟨nid, -, hnid⟩ := List.mem_filterMap.mp (List.fst_mem_of_mem_zipIdx hmem)
    exact h.node nid node hnid

theorem leafShape_eq_ok {info : ModelInfo} {shape : LeafShape} :
    leafShape info = .ok shape ↔ info.leafVectorShape = #[shape.targets, shape.classes] := by
  rw [leafShape]
  constructor
  · intro h
    split at h
    · rename_i targets classes hl
      cases h
      rw [← Array.toList_inj, hl]
    · cases h
  · intro h
    rw [h]
    rfl

theorem leafShape_bind_eq_ok {info : ModelInfo} {next : LeafShape → Result Unit} :
    (leafShape info >>= next) = .ok () ↔ ∃ shape : LeafShape,
      info.leafVectorShape = #[shape.targets, shape.classes] ∧ next shape = .ok () := by
  rw [bind_eq_ok]
  simp only [leafShape_eq_ok]

/-- The check succeeds on the models that a prediction can be computed for, and on no others. -/
theorem check_eq_ok {model : Model} {kind : PredictKind} :
    model.check kind = .ok () ↔ ∃ shape, model.Usable kind shape := by
  have hroutes : ∀ shape, (∀ entry ∈ (model.info.targetId.toList.zip
        model.info.classId.toList).zipIdx,
          checkRouting model.info entry.2 shape entry.1.1 entry.1.2 = .ok ()) ↔
      ∀ (tree : Nat) (target class_ : Int32), model.info.targetId[tree]? = some target →
        model.info.classId[tree]? = some class_ → Routed model.info shape target class_ := by
    intro shape
    refine forM_eq_ok.symm.trans (forM_pairs_eq_ok.trans ?_)
    simp only [checkRouting_eq_ok]
  have htrees : ∀ shape, (∀ entry ∈ model.trees.toList.zipIdx,
        checkTree model.info kind shape entry.1 entry.2 = .ok ()) ↔
      ∀ (index : Nat) (tree : Tree model.pairing.Threshold model.pairing.Leaf),
        model.trees[index]? = some tree → TreeFits model.info kind shape index tree := by
    intro shape
    simp only [checkTree_eq_ok, Prod.forall, List.mem_zipIdx_iff_getElem?, Array.getElem?_toList]
    exact ⟨fun h index tree => h tree index, fun h tree index => h index tree⟩
  cases hsums : kind.sums with
  | false =>
    simp only [check, hsums, Bool.false_eq_true, if_false, then_eq_ok, require_eq_ok,
      leafShape_bind_eq_ok, forM_eq_ok, htrees, Array.all_eq_true', decide_eq_true_eq]
    constructor
    · rintro ⟨⟨ht, hn⟩, hp, shape, hs, ⟨hti, hci⟩, htree⟩
      exact ⟨shape, ht, hn, hp, hs, hti, hci, by simp [hsums], by simp [hsums], htree⟩
    · rintro ⟨shape, h⟩
      exact ⟨⟨h.numTarget_pos, h.numClass_size⟩, h.numClass_pos, shape, h.leafVectorShape_eq,
        ⟨h.targetId_size, h.classId_size⟩, h.fits⟩
  | true =>
    simp only [check, hsums, if_true, then_eq_ok, require_eq_ok, leafShape_bind_eq_ok,
      forM_eq_ok, hroutes, htrees, Array.all_eq_true', decide_eq_true_eq]
    constructor
    · rintro ⟨⟨ht, hn⟩, hp, shape, hs, ⟨hti, hci⟩, hb, hr, htree⟩
      exact ⟨shape, ht, hn, hp, hs, hti, hci, fun _ => hb, fun _ => hr, htree⟩
    · rintro ⟨shape, h⟩
      exact ⟨⟨h.numTarget_pos, h.numClass_size⟩, h.numClass_pos, shape, h.leafVectorShape_eq,
        ⟨h.targetId_size, h.classId_size⟩, h.baseScores_size hsums, h.routed hsums, h.fits⟩

end Model

end Arboretum

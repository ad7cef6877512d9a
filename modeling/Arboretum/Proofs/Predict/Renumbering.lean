import Arboretum.Proofs.Predict.Paired
import Arboretum.Proofs.Tree.Renumbering

/-!
Predictions do not see how nodes are numbered. Two models whose trees differ in nothing but that,
tree by tree, pass the same checks and lead every row to the same outputs, so that each prediction
ends well for both of them or for none, with one and the same answer. Only the numbers of the
leaves that are reached tell them apart.
-/

namespace Arboretum

open Predict

variable {T L α : Type}

/-- Two trees with nodes that differ in the numbers of these. -/
structure Tree.Alike (tree other : Tree T L) : Prop where
  nonempty : 0 < tree.nodeCount
  valid : tree.validate = .ok ()
  other_valid : other.validate = .ok ()
  renumbered : ∃ σ τ, Renumbered σ τ tree other

namespace Tree.Alike

variable {tree other : Tree T L}

theorem symm (h : tree.Alike other) : other.Alike tree := by
  obtain ⟨σ, τ, hr⟩ := h.renumbered
  refine ⟨by rw [hr.nodeCount]; exact h.nonempty, h.other_valid, h.valid, τ, σ, ?_⟩
  exact hr.symm (.of_validate h.valid) (Checked.of_validate h.other_valid).columnar

theorem treeFits {info : ModelInfo} {kind : PredictKind} {shape : LeafShape} {index : Nat}
    (h : tree.Alike other) (hfits : TreeFits info kind shape index tree) :
    TreeFits info kind shape index other := by
  obtain ⟨σ, τ, hr⟩ := h.renumbered
  have hc := Checked.of_validate h.valid
  refine ⟨by rw [hr.numNodes]; exact hfits.nonempty, h.other_valid, fun j shown hshown => ?_⟩
  have hj := (Checked.of_validate h.other_valid).lt hshown
  rw [hr.nodeCount] at hj
  obtain ⟨node, hnode, halike⟩ := hr.node_back hc hj hshown
  have hleaf := hr.isLeaf hc hnode halike
  have hnodeFits := hfits.node _ node hnode
  constructor
  · rw [hleaf, halike.hasLeafVector, halike.leafVector]
    exact hnodeFits.vector_size
  · rw [hleaf, halike.hasLeafVector]
    exact hnodeFits.scalar_routing
  · rw [hleaf, halike.feature]
    exact hnodeFits.feature_lt
  · rw [hleaf, halike.kind, halike.comparison]
    exact hnodeFits.comparison

variable [Numeric T] [Score α]

theorem reached (h : tree.Alike other) (row : Array α) : SameReached row tree other := by
  obtain ⟨σ, τ, hr⟩ := h.renumbered
  have hother := hr.leafOf? (.of_validate h.valid) h.nonempty row
  cases hleaf : tree.leafOf? row with
  | none => exact .inl ⟨hleaf, by rw [hother, hleaf, Option.map_none]⟩
  | some leaf =>
    obtain ⟨node, hnode, -⟩ := isLeaf_of_leafBelow? hleaf
    obtain ⟨shown, hshown, halike⟩ := hr.node leaf node hnode
    exact .inr ⟨leaf, σ leaf, node, shown, hleaf, hnode, by rw [hother, hleaf, Option.map_some],
      hshown, halike.leafVector, fun _ => halike.leafValue⟩

end Tree.Alike

/-- Two models of one pairing with the same metadata whose trees differ, each from its partner, in
the numbers of their nodes. -/
inductive Model.Alike : Model → Model → Prop where
  | intro {pairing : Pairing} {trees others : Array (Tree pairing.Threshold pairing.Leaf)}
    {info : ModelInfo} {version version' : FormatVersion} {fields fields' : Int32}
    (h : List.Forall₂ Tree.Alike trees.toList others.toList) :
    Model.Alike ⟨pairing, trees, info, version, fields⟩ ⟨pairing, others, info, version', fields'⟩

namespace Model.Alike

variable {model other : Model}

theorem symm (h : model.Alike other) : other.Alike model := by
  obtain ⟨h⟩ := h
  exact ⟨(h.imp fun _ _ => Tree.Alike.symm).flip⟩

theorem paired (h : model.Alike other) : model.Paired Tree.Alike other := by
  obtain ⟨h⟩ := h
  exact ⟨h⟩

theorem check (h : model.Alike other) {kind : PredictKind} (hcheck : model.check kind = .ok ()) :
    other.check kind = .ok () := by
  have hnum := h.paired.numTree_eq
  obtain ⟨shape, husable⟩ := check_eq_ok.mp hcheck
  refine check_eq_ok.mpr ⟨shape, ?_⟩
  obtain ⟨h⟩ := h
  refine ⟨husable.numTarget_pos, husable.numClass_size, husable.numClass_pos,
    husable.leafVectorShape_eq, husable.targetId_size.trans hnum.symm,
    husable.classId_size.trans hnum.symm, husable.baseScores_size, husable.routed,
    fun index tree htree => ?_⟩
  rw [← Array.getElem?_toList] at htree
  obtain ⟨partner, hpartner, halike⟩ := exists_partner h htree
  rw [Array.getElem?_toList] at hpartner
  exact halike.treeFits (husable.fits index partner hpartner)

theorem check_iff (h : model.Alike other) {kind : PredictKind} :
    other.check kind = .ok () ↔ model.check kind = .ok () :=
  ⟨h.symm.check, h.check⟩

variable [Score α]

theorem prepare_iff (h : model.Alike other) {machine : Machine} {config : Configuration}
    (hkind : config.kind ≠ .leafId) {input : Array α} {numRow outSize threads : Nat}
    {kernel : RowKernel α} :
    other.prepare machine config input numRow outSize = .ok (threads, kernel) ↔
      model.prepare machine config input numRow outSize = .ok (threads, kernel) := by
  have hkernel : ∀ post, (kernel? other config.kind post : Option (RowKernel α)) =
      kernel? model config.kind post :=
    h.paired.kernel?_eq (fun halike row => halike.reached row) fun hleafId => absurd hleafId hkind
  simp only [prepare_eq_ok, h.paired.info_eq, h.paired.leafType_eq, h.paired.outputSize_eq,
    h.paired.postprocessorFor_eq, h.check_iff, hkernel]

/-- A prediction ends well for both models or for none, and with one and the same answer. Where it
ends with an error the buffer is left alone. -/
theorem predictOn (h : model.Alike other) (machine : Machine) {config : Configuration}
    (hkind : config.kind ≠ .leafId) (input : Array α) (numRow : Nat) (out : Array α) :
    (∃ after, (model.predictOn machine config input numRow).apply out = (.ok (), after) ∧
      (other.predictOn machine config input numRow).apply out = (.ok (), after)) ∨
    ∃ e e', (model.predictOn machine config input numRow).apply out = (.error e, out) ∧
      (other.predictOn machine config input numRow).apply out = (.error e', out) := by
  cases hprepare : model.prepare machine config input numRow out.size with
  | error e =>
    cases hother : other.prepare machine config input numRow out.size with
    | error e' => exact .inr ⟨e, e', predictOn_error hprepare, predictOn_error hother⟩
    | ok prepared =>
      rw [(h.prepare_iff hkind).mp hother] at hprepare
      cases hprepare
  | ok prepared =>
    have hother := (h.prepare_iff hkind).mpr hprepare
    rw [h.paired.predictOn_eq (hother.trans hprepare.symm)]
    rcases predictOn_outcome hprepare with ⟨after, hok, -⟩ | ⟨cause, -, herror⟩
    · exact .inl ⟨after, hok, hok⟩
    · exact .inr ⟨_, _, herror, herror⟩

end Model.Alike

end Arboretum

import Arboretum.Proofs.Builder.Invariant
import Arboretum.Proofs.Builder.RoutingRule
import Arboretum.Proofs.Predict.Outcome

/-!
Whether a committed model can be predicted with. The descriptors of a builder and the nodes that it
admits give the predictor everything it asks for but one thing: a tree that feeds every target or
every class needs vectors at its leaves, also where there is just one target or class, and a builder
takes a single number there.
-/

namespace Arboretum

namespace Builder

variable {threshold leaf : ValueType} {metadata : Metadata} {routing : TreeRouting}
  {choice : PostprocessorChoice} {baseScores : Array Double} {attributes : Option String}
  {start : Builder}

theorem Described.postprocessing
    (h : Described threshold leaf metadata routing choice baseScores attributes start) :
    ∃ post, start.info.postprocessing = .ok post := by
  obtain ⟨kind, params, hkind, -⟩ := h.parameters
  rw [ModelInfo.postprocessing, h.postprocessor, hkind]
  exact ⟨_, rfl⟩

/-- The routing that a builder accepts is the one that the predictor asks for. -/
theorem Described.routed (h : Described threshold leaf metadata routing choice baseScores attributes
      start) {tree : Nat} {target class_ : Int32}
    (ht : start.info.targetId[tree]? = some target)
    (hc : start.info.classId[tree]? = some class_) :
    Routed start.info start.leafShape target class_ := by
  rw [h.targetId] at ht
  rw [h.classId] at hc
  have hinfo : metadata.SharesLayout start.info :=
    ⟨h.numTarget, h.numClass, Model.leafShape_eq_ok.mpr h.leafVectorShape⟩
  have htree := TreeRouting.validateAgainst_eq_ok.mp h.routing_fits tree target class_ ht hc
  rw [h.leafShape]
  exact ((TreeRouting.checkTree_eq_ok hinfo).mp htree).2

private theorem shape_size_lt (shape : LeafShape) : shape.size < 2 ^ 64 := by
  have := Nat.mul_lt_mul'' shape.targets.toNat_lt shape.classes.toNat_lt
  unfold LeafShape.size
  omega

theorem Finished.vector_size {T L : Type} {numFeature : Nat} {shape : LeafShape} {tree : Tree T L}
    (h : Finished numFeature shape tree) {nid : Nat} {node : Node T L}
    (hnode : tree.node? nid = some node) (hleaf : node.isLeaf = true)
    (hvector : node.hasLeafVector = true) : node.leafVector.size = shape.size := by
  have hchecked := Tree.Checked.of_validate h.valid
  have hlt := hchecked.lt hnode
  have hsound := hchecked.sound nid hlt
  obtain ⟨hkind, hleft, -, -, -, -, -, -, ⟨first, last, hfirst, hlast, hrange⟩, -⟩ :=
    Tree.node?_eq_some_iff.mp hnode
  have hkindLeaf : tree.kind[nid]? = some .leaf := by
    have hfits := hsound.kindFits
    rw [Tree.getD_left hnode, Array.getD_eq_getD_getElem?, hkind, Option.getD_some] at hfits
    rw [hkind, hfits.mpr (by simpa [Node.isLeaf] using hleaf)]
  have hbounds := hsound.leafRange
  rw [Array.getD_eq_getD_getElem?, Array.getD_eq_getD_getElem?, hfirst, hlast, Option.getD_some,
    Option.getD_some] at hbounds
  have hempty : ¬ last ≤ first := by
    intro hle
    rw [storeRange?, if_pos hle, Option.some.injEq] at hrange
    rw [Node.hasLeafVector, ← hrange] at hvector
    cases hvector
  rw [storeRange?, if_neg hempty, if_pos hbounds.2, Option.some.injEq] at hrange
  rcases (h.complete nid hlt).leaf hkindLeaf first last hfirst hlast with hsize | ⟨-, hsame⟩
  · have hlength := congrArg UInt64.toNat hsize
    rw [UInt64.toNat_sub_of_le _ _ hbounds.1,
      UInt64.toNat_ofNat_of_lt' (shape_size_lt shape)] at hlength
    rw [← hrange, Array.size_extract, Nat.min_eq_left hbounds.2, hlength]
  · exact absurd (hsame ▸ UInt64.le_refl first) hempty

theorem Finished.nodeFits {T L : Type} {info : ModelInfo} {kind : PredictKind} {shape : LeafShape}
    {tree : Tree T L} (h : Finished info.numFeature.toInt.toNat shape tree) {index nid : Nat}
    {node : Node T L} (hnode : tree.node? nid = some node)
    (hvector : kind.sums = true →
      info.targetId.getD index 0 = allSlots ∨ info.classId.getD index 0 = allSlots →
      node.isLeaf = true → node.hasLeafVector = true) :
    NodeFits info kind shape index node := by
  have hchecked := Tree.Checked.of_validate h.valid
  have hlt := hchecked.lt hnode
  have hcomplete := h.complete nid hlt
  obtain ⟨hkind, hleft, -, ⟨feature, hfeature, hcast⟩, -, -, hcomparison, -⟩ :=
    Tree.node?_eq_some_iff.mp hnode
  have hne : node.isLeaf = false → node.kind ≠ .leaf := by
    intro hleaf he
    have hfits := (hchecked.sound nid hlt).kindFits
    rw [Tree.getD_left hnode, Array.getD_eq_getD_getElem?, hkind, Option.getD_some] at hfits
    rw [Node.isLeaf, decide_eq_false_iff_not] at hleaf
    exact hleaf (hfits.mp he)
  refine ⟨fun hleaf _ => h.vector_size hnode hleaf, ?_, ?_, ?_⟩
  · intro hleaf hsums hscalar
    by_contra hnot
    have hall : info.targetId.getD index 0 = allSlots ∨ info.classId.getD index 0 = allSlots := by
      by_contra hneither
      exact hnot ⟨fun ht => hneither (.inl ht), fun hc => hneither (.inr hc)⟩
    rw [hvector hsums hall hleaf] at hscalar
    cases hscalar
  · intro hleaf
    rw [← hcast]
    exact hcomplete.feature node.kind hkind (hne hleaf) feature hfeature
  · intro hleaf
    exact hcomplete.comparison node.kind hkind (hne hleaf) node.comparison hcomparison

end Builder

/-- Every tree that feeds all targets or all classes has vectors at its leaves. -/
def Model.VectorsWhereNeeded (model : Model) : Prop :=
  ∀ (index : Nat) (tree : Tree model.pairing.Threshold model.pairing.Leaf),
    model.trees[index]? = some tree →
    model.info.targetId.getD index 0 = allSlots ∨ model.info.classId.getD index 0 = allSlots →
    ∀ nid node, tree.node? nid = some node → node.isLeaf = true → node.hasLeafVector = true

namespace Builder

/-- A committed model has all that the predictor asks for, except that a tree may lack vectors. -/
theorem usable_of_commit {b spent : Builder} {model : Model}
    (hdescribed : Described threshold leaf metadata routing choice baseScores attributes start)
    (hsound : Sound start b) (hcommit : commit.apply b = (.ok model, spent)) {kind : PredictKind}
    (hvectors : kind.sums = true → model.VectorsWhereNeeded) :
    model.info = start.info ∧ model.Usable kind start.leafShape := by
  obtain ⟨-, hsize, rfl, -⟩ := (commit_leads b).goal_of_ok hcommit
  have hmetadata := hdescribed.metadata_ok
  have hrouting := hdescribed.routing_ok
  simp only [Metadata.validate, then_eq_ok, require_eq_ok, Array.all_eq_true',
    decide_eq_true_eq] at hmetadata
  simp only [TreeRouting.validate, then_eq_ok, require_eq_ok] at hrouting
  obtain ⟨-, htargets, hcounts, hpositive, -⟩ := hmetadata
  rw [hsound.numTree, hdescribed.numTree] at hsize
  refine ⟨hsound.info, ?_⟩
  constructor <;> dsimp only [Model.numTree, Model.maxNumClass]
  · rw [hsound.info, hdescribed.numTarget]
    exact htargets
  · rw [hsound.info, hdescribed.numTarget, hdescribed.numClass]
    exact hcounts
  · rw [hsound.info, hdescribed.numClass]
    exact hpositive
  · rw [hsound.info, hdescribed.leafVectorShape, hdescribed.leafShape]
  · rw [hsound.info, hdescribed.targetId, hrouting.1, hsize]
  · rw [hsound.info, hdescribed.classId, hrouting.2, hsize]
  · intro _
    rw [hsound.info, hdescribed.baseScores_size, hdescribed.numTarget, hdescribed.numClass]
    rfl
  · intro _ tree target class_ ht hc
    rw [hsound.info] at ht hc ⊢
    exact hdescribed.routed ht hc
  · intro index tree htree
    have hfinished := hsound.trees tree (Array.mem_of_getElem? htree)
    have hfinished : Finished b.info.numFeature.toInt.toNat start.leafShape tree := by
      rw [hsound.info]
      exact hfinished
    refine ⟨?_, hfinished.valid, fun nid node hnode => hfinished.nodeFits hnode ?_⟩
    · intro hzero
      have hpos := hfinished.nonempty
      rw [Tree.nodeCount, hzero] at hpos
      cases hpos
    · intro hsums hall hleaf
      exact hvectors hsums index tree htree hall nid node hnode hleaf

private theorem vectorsWhereNeeded_of_check {model : Model} {kind : PredictKind}
    (hsums : kind.sums = true) (hcheck : model.check kind = .ok ()) : model.VectorsWhereNeeded := by
  obtain ⟨shape, h⟩ := Model.check_eq_ok.mp hcheck
  intro index tree htree hall nid node hnode hleaf
  by_contra hscalar
  have hscalar : node.hasLeafVector = false := by simpa using hscalar
  have hfits := (h.fits index tree htree).node nid node hnode
  have hneither := hfits.scalar_routing hleaf hsums hscalar
  rcases hall with ht | hc
  · exact hneither.1 ht
  · exact hneither.2 hc

/-- A committed model predicts for every request that fits it, unless scores are to be summed and a
tree that feeds all targets or all classes has a leaf with a single number. -/
theorem predictOn_committed_iff {α : Type} [Score α] {threshold leaf : ValueType}
    {metadata : Metadata} {routing : TreeRouting} {postprocessor : PostprocessorChoice}
    {baseScores : Array Double} {attributes : Option String} {start spent : Builder} {model : Model}
    (requests : List Request) (machine : Machine) (kind : PredictKind) (threads : Int32)
    (input out : Array α) (numRow : Nat)
    (hcreate : create threshold leaf metadata routing postprocessor baseScores attributes =
      .ok start)
    (hcommit : commit.apply (start.run requests) = (.ok model, spent))
    (htype : Numeric.valueType α = model.pairing.leafType)
    (hinput : input.size = numRow * model.info.numFeature.toInt.toNat)
    (hout : out.size = model.outputSize numRow kind)
    (hrows : model.info.numFeature.toInt.toNat ≠ 0 ∨ numRow < 2 ^ 63) (hthreads : -1 ≤ threads)
    (hpool : ∀ workers, machine.startPool workers = .ok ()) :
    (∃ after, (model.predictOn machine ⟨kind, threads⟩ input numRow).apply out = (.ok (), after)) ↔
      (kind.sums = true → model.VectorsWhereNeeded) := by
  have hdescribed := create_described hcreate
  have hsound := run_sound requests (create_sound hcreate)
  constructor
  · rintro ⟨after, hok⟩ hsums
    have hcheck := Model.check_of_predictOn_ok hok
    exact vectorsWhereNeeded_of_check hsums hcheck
  · intro hvectors
    obtain ⟨hinfo, husable⟩ := usable_of_commit hdescribed hsound hcommit hvectors
    have hfeature : 0 ≤ model.info.numFeature := by
      have hmetadata := hdescribed.metadata_ok
      simp only [Metadata.validate, then_eq_ok, require_eq_ok] at hmetadata
      rw [hinfo, hdescribed.numFeature]
      exact hmetadata.1
    have hpost : ∃ post, model.postprocessorFor kind = .ok post := by
      obtain ⟨post, hpost⟩ := hdescribed.postprocessing
      cases kind with
      | processed => exact ⟨some post, by rw [Model.postprocessorFor, hinfo, hpost]; rfl⟩
      | raw | leafId | perTree => exact ⟨none, rfl⟩
    obtain ⟨post, hpost⟩ := hpost
    exact Model.predictOn_ok (Model.check_eq_ok.mpr ⟨_, husable⟩) hpost htype hfeature hinput hout
      hrows hthreads hpool

/-- A builder of one tree for one target of one class, with the routing of that tree. -/
def stump (target class_ : Int32) : Result Builder :=
  create .float64 .float64 ⟨1, .regression, false, 1, #[1], .scalar⟩ ⟨1, #[target], #[class_]⟩
    ⟨"identity", noAttributes⟩ #[⟨0⟩] none

def stumpCalls : List Request :=
  [.startTree, .startNode 0, .leafScalar Score.one, .endNode, .endTree]

theorem exists_committed (created : Result Builder) (requests : List Request) (p : Model → Prop)
    [DecidablePred p]
    (h : (do
      let start ← created
      let model ← (commit.apply (start.run requests)).1
      pure (decide (p model))) = .ok true) :
    ∃ (start spent : Builder) (model : Model), created = .ok start ∧
      commit.apply (start.run requests) = (.ok model, spent) ∧ p model := by
  obtain ⟨start, hstart, h⟩ := bind_eq_ok.mp h
  obtain ⟨model, hmodel, h⟩ := bind_eq_ok.mp h
  exact ⟨start, _, model, hstart, Prod.ext hmodel rfl, of_decide_eq_true (Except.ok.inj h)⟩

private theorem exists_stump (target class_ : Int32) (p : Model → Prop) [DecidablePred p]
    (h : (do
      let start ← stump target class_
      let model ← (commit.apply (start.run stumpCalls)).1
      pure (decide (p model))) = .ok true) :
    ∃ (start spent : Builder) (model : Model), stump target class_ = .ok start ∧
      commit.apply (start.run stumpCalls) = (.ok model, spent) ∧ p model :=
  exists_committed (stump target class_) stumpCalls p h

/-- The number of a tree that names its target and its class is used. -/
theorem predictOn_stump :
    ∃ (start spent : Builder) (model : Model), stump 0 0 = .ok start ∧
      commit.apply (start.run stumpCalls) = (.ok model, spent) ∧
      ∃ after, (model.predictOn (.ofCores 1) ⟨.raw, 1⟩ #[(⟨0⟩ : Double)] 1).apply #[⟨0⟩] =
        (.ok (), after) := by
  obtain ⟨start, spent, model, hstart, hcommit, htype, hinput, hout, htargets, hclasses⟩ :=
    exists_stump 0 0
      (fun model => Numeric.valueType Double = model.pairing.leafType ∧
        (#[⟨0⟩] : Array Double).size = 1 * model.info.numFeature.toInt.toNat ∧
        (#[⟨0⟩] : Array Double).size = model.outputSize 1 .raw ∧
        model.info.targetId = #[0] ∧ model.info.classId = #[0]) (by decide +kernel)
  refine ⟨start, spent, model, hstart, hcommit, ?_⟩
  refine (predictOn_committed_iff stumpCalls (.ofCores 1) .raw 1 _ _ 1 hstart hcommit htype hinput
    hout (.inr (by decide)) (by decide) fun _ => rfl).mpr ?_
  intro _ index tree _ hall
  have hzero : (#[0] : Array Int32).getD index 0 = 0 := by cases index <;> rfl
  rw [htargets, hclasses, hzero] at hall
  exact absurd hall (by decide)

/-- The same number is refused where the tree feeds all targets and all classes, one of each. -/
theorem predictOn_stump_refused :
    ∃ (start spent : Builder) (model : Model), stump (-1) (-1) = .ok start ∧
      commit.apply (start.run stumpCalls) = (.ok model, spent) ∧
      Numeric.valueType Double = model.pairing.leafType ∧
      (#[⟨0⟩] : Array Double).size = 1 * model.info.numFeature.toInt.toNat ∧
      (#[⟨0⟩] : Array Double).size = model.outputSize 1 .raw ∧
      (model.predictOn (.ofCores 1) ⟨.raw, 1⟩ #[(⟨0⟩ : Double)] 1).apply #[⟨0⟩] =
        (.error (.structural (.scalarForVector 0 0)), #[⟨0⟩]) :=
  exists_stump _ _ _ (by decide +kernel)

end Builder

end Arboretum

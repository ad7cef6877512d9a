import Arboretum.Proofs.Builder.Agreement
import Arboretum.Proofs.Builder.OpenTree
import Mathlib.Data.List.ModifyLast

/-!
A builder builds what was declared. It follows the calls that it accepts: the trees it has closed
are the declared ones, and its open tree shows the open declaration. One call keeps this up, so any
sequence of calls does, and the model that is committed in the end shows exactly the declared trees
under the metadata of the descriptors.
-/

namespace Arboretum.Builder

open Edit.Leads (noModel)

/-- The nodes of an open tree have their test or output, but for the current one before its call. -/
def Phased (nodes : List DeclaredNode) : BuilderPhase → Prop
  | .expectDetail => ∃ done last, nodes = done ++ [last] ∧
    last.calls.filter Request.isDetail = [] ∧ ∀ declared ∈ done, declared.Complete
  | .nodeComplete => ∃ done last, nodes = done ++ [last] ∧ last.Complete ∧
    ∀ declared ∈ done, declared.Complete
  | .expectNode => ∀ declared ∈ nodes, declared.Complete
  | .expectTree | .modelComplete => True

theorem Phased.exists_last {nodes : List DeclaredNode} {phase : BuilderPhase}
    (h : Phased nodes phase) (hopen : phase = .expectDetail ∨ phase = .nodeComplete) :
    ∃ done last, nodes = done ++ [last] := by
  rcases hopen with rfl | rfl
  all_goals
    obtain ⟨done, last, hnodes, -⟩ := h
    exact ⟨done, last, hnodes⟩

/-- A builder that has built what was declared so far. -/
structure Follows (start : Builder) (declaration : Declaration) (b : Builder) : Prop where
  precision : b.precision = start.precision
  draft : b.draft.Follows declaration.nodes
  phase : Phased declaration.nodes b.phase
  trees : b.phase ≠ .modelComplete → List.Forall₂
    (fun nodes (tree : Tree b.precision.Word b.precision.Word) => tree.Bounded → Built nodes tree)
    declaration.trees b.trees.toList

namespace Follows

variable {start b : Builder} {declaration : Declaration} {request : Request}
  {tree : Tree b.precision.Word b.precision.Word}
  {change : Node b.precision.Word b.precision.Word → Node b.precision.Word b.precision.Word}

theorem detail (h : Follows start declaration b) (hphase : b.phase = .expectDetail)
    (hrequest : request.isDetail = true)
    (hedited : Tree.Edited b.draft.current change request.isCategorical b.draft.tree tree)
    (hchange : ∀ last : DeclaredNode, last.calls.filter Request.isDetail = [] →
      (last.add request).node unnumbered = change (last.node unnumbered))
    {childKeys : Array (Option (Int32 × Int32))}
    (hchildKeys : childKeys = b.draft.childKeys ∧ request.childKeys? = none ∨
      childKeys = b.draft.childKeys.setIfInBounds b.draft.current request.childKeys?) :
    Follows start (declaration.add request) { b with
      draft := ⟨tree, b.draft.keys, childKeys⟩
      phase := .nodeComplete } := by
  obtain ⟨done, last, hnodes, hnone, hdone⟩ : Phased declaration.nodes .expectDetail :=
    hphase ▸ h.phase
  have hdraft := h.draft
  rw [hnodes] at hdraft
  rw [declaration.add_of_call (.inl hrequest), hnodes, List.modifyLast_concat]
  refine ⟨h.precision, hdraft.edit hedited (hchange last hnone) ?_,
    ⟨done, _, rfl, DeclaredNode.complete_add hnone hrequest, hdone⟩,
    fun _ => h.trees (by rw [hphase]; decide)⟩
  rw [DeclaredNode.childKeys?_add_detail hnone hrequest]
  rcases hchildKeys with ⟨rfl, hkeys⟩ | rfl
  · rw [hdraft.childKeys, hkeys, List.map_append, List.map_singleton,
      DeclaredNode.childKeys?_of_none hnone]
  · rw [Array.toList_setIfInBounds, hdraft.childKeys, hdraft.current_eq, List.map_append,
      List.set_append_right _ _ (by rw [List.length_map])]
    simp

theorem statistic (h : Follows start declaration b)
    (hopen : b.phase = .expectDetail ∨ b.phase = .nodeComplete)
    (hrequest : request.isStatistic = true)
    (hedited : Tree.Edited b.draft.current change request.isCategorical b.draft.tree tree)
    (hchange : ∀ last : DeclaredNode,
      (last.add request).node unnumbered = change (last.node unnumbered)) :
    Follows start (declaration.add request) { b with draft.tree := tree } := by
  have hnot := Request.isDetail_of_isStatistic hrequest
  obtain ⟨done, last, hnodes, hphased⟩ : ∃ done last, declaration.nodes = done ++ [last] ∧
      Phased (done ++ [last.add request]) b.phase := by
    have hphased := h.phase
    rcases hopen with hphase | hphase
    · rw [hphase] at hphased ⊢
      obtain ⟨done, last, hnodes, hnone, hdone⟩ := hphased
      exact ⟨done, last, hnodes, done, _, rfl,
        (DeclaredNode.filter_add hnot).trans hnone, hdone⟩
    · rw [hphase] at hphased ⊢
      obtain ⟨done, last, hnodes, ⟨detail, hdetail⟩, hdone⟩ := hphased
      exact ⟨done, last, hnodes, done, _, rfl,
        ⟨detail, (DeclaredNode.filter_add hnot).trans hdetail⟩, hdone⟩
  have hdraft := h.draft
  rw [hnodes] at hdraft
  rw [declaration.add_of_call (.inr hrequest), hnodes, List.modifyLast_concat]
  refine ⟨h.precision, hdraft.edit hedited (hchange last) ?_, hphased, h.trees⟩
  rw [hdraft.childKeys, List.map_append, DeclaredNode.childKeys?_add hnot]
  rfl

/-- One call that goes through. -/
theorem call_leads (h : Follows start declaration b) (request : Request) :
    request.call.Leads b fun _ after => Follows start (declaration.add request) after := by
  cases request with
  | startTree =>
    refine noModel (startTree_leads b) ?_
    rintro _ ⟨hphase, -, rfl⟩
    exact ⟨h.precision, .empty, List.forall_mem_nil _, fun _ => h.trees (by rw [hphase]; decide)⟩
  | endTree =>
    refine noModel (endTree_leads b) ?_
    rintro _ ⟨hphase, -, tree, hfinish, rfl⟩
    have hcomplete : Phased declaration.nodes .expectNode := hphase ▸ h.phase
    refine ⟨h.precision, .empty, trivial, fun _ => ?_⟩
    rw [Array.toList_push]
    exact List.rel_append (h.trees (by rw [hphase]; decide))
      (.cons (h.draft.built hcomplete hfinish) .nil)
  | startNode key =>
    refine noModel (startNode_leads b key) ?_
    rintro _ ⟨hphase, -, hnew, -, hlt, rfl⟩
    have hcomplete : Phased declaration.nodes .expectNode := hphase ▸ h.phase
    exact ⟨h.precision, h.draft.push hnew hlt, ⟨_, _, rfl, rfl, hcomplete⟩,
      fun _ => h.trees (by rw [hphase]; decide)⟩
  | endNode =>
    refine noModel (endNode_leads b) ?_
    rintro _ ⟨hphase, rfl⟩
    obtain ⟨done, last, hnodes, hlast, hdone⟩ : Phased declaration.nodes .nodeComplete :=
      hphase ▸ h.phase
    refine ⟨h.precision, h.draft, ?_, fun _ => h.trees (by rw [hphase]; decide)⟩
    show ∀ declared ∈ declaration.nodes, declared.Complete
    rw [hnodes, List.forall_mem_append]
    exact ⟨hdone, List.forall_mem_singleton.mpr hlast⟩
  | numericalTest feature threshold defaultLeft comparison left right =>
    refine noModel (numericalTest_leads b feature threshold defaultLeft comparison left right
      fun _ _ => Tree.setNumericalSplit_edited _ _ _ _) ?_
    rintro _ ⟨hphase, -, -, -, tree, hedited, rfl⟩
    refine h.detail hphase rfl hedited (fun last hnone => ?_) (.inr rfl)
    rw [DeclaredNode.node_add_detail _ hnone rfl, DeclaredNode.node,
      DeclaredNode.detail?_of_none hnone]
    rfl
  | categoricalTest feature defaultLeft categories matchGoesRight left right =>
    refine noModel
      (categoricalTest_leads b feature defaultLeft categories matchGoesRight left right
        fun _ => Tree.setCategoricalSplit_edited _ _ _ _) ?_
    rintro _ ⟨hphase, -, -, tree, hedited, rfl⟩
    refine h.detail hphase rfl hedited (fun last hnone => ?_) (.inr rfl)
    rw [DeclaredNode.node_add_detail _ hnone rfl, DeclaredNode.node,
      DeclaredNode.detail?_of_none hnone]
    rfl
  | leafScalar value =>
    refine noModel (leafScalar_leads b value fun _ => Tree.setLeaf_edited _) ?_
    rintro _ ⟨hphase, -, tree, hedited, rfl⟩
    refine h.detail hphase rfl hedited (fun last hnone => ?_) (.inl ⟨rfl, rfl⟩)
    rw [DeclaredNode.node_add_detail _ hnone rfl, DeclaredNode.node,
      DeclaredNode.detail?_of_none hnone]
    rfl
  | leafVector values =>
    refine noModel (leafVector_leads b values fun _ => Tree.setLeafVector_edited _) ?_
    rintro _ ⟨hphase, -, -, tree, hedited, rfl⟩
    refine h.detail hphase rfl hedited (fun last hnone => ?_) (.inl ⟨rfl, rfl⟩)
    rw [DeclaredNode.node_add_detail _ hnone rfl, DeclaredNode.node,
      DeclaredNode.detail?_of_none hnone]
    rfl
  | gain amount =>
    refine noModel (gain_leads b amount (Tree.setGain_edited amount)) ?_
    rintro _ ⟨hopen, tree, hedited, rfl⟩
    exact h.statistic hopen rfl hedited fun last => last.node_add_gain _ amount
  | dataCount count =>
    refine noModel (dataCount_leads b count (Tree.setDataCount_edited count)) ?_
    rintro _ ⟨hopen, tree, hedited, rfl⟩
    exact h.statistic hopen rfl hedited fun last => last.node_add_dataCount _ count
  | sumHess sum =>
    refine noModel (sumHess_leads b sum (Tree.setSumHess_edited sum)) ?_
    rintro _ ⟨hopen, tree, hedited, rfl⟩
    exact h.statistic hopen rfl hedited fun last => last.node_add_sumHess _ sum
  | commit =>
    refine .bind ((commit_leads b).mono ?_)
    rintro model _ ⟨-, -, -, rfl⟩
    exact ⟨_, _, rfl, h.precision, h.draft, trivial, fun hphase => absurd rfl hphase⟩

end Follows

variable {start b : Builder} {declaration : Declaration}

/-- A run of calls, of which the accepted ones declare something. -/
theorem run_follows (requests : List Request) (h : Follows start declaration b) :
    Follows start ((b.accepted requests).foldl Declaration.add declaration) (b.run requests) := by
  induction requests generalizing b declaration with
  | nil => exact h
  | cons request requests ih =>
    rw [run_cons]
    rcases accepted_cons b request requests with ⟨answer, after, hcall, hkept⟩ | ⟨e, hcall, hkept⟩
    · rw [hcall, hkept]
      exact ih ((h.call_leads request).goal_of_ok hcall)
    · rw [hcall, hkept]
      exact ih h

theorem create_follows {threshold leaf : ValueType} {metadata : Metadata} {routing : TreeRouting}
    {choice : PostprocessorChoice} {baseScores : Array Double} {attributes : Option String}
    (h : create threshold leaf metadata routing choice baseScores attributes = .ok start) :
    Follows start ⟨[], []⟩ start := by
  have hfresh := create_described h
  refine ⟨rfl, ?_, ?_, fun _ => ?_⟩
  · rw [hfresh.draft]
    exact .empty
  · rw [hfresh.phase]
    exact trivial
  · rw [hfresh.trees]
    exact .nil

/-- The trees of a committed model are those of the accepted calls. -/
theorem built_of_commit {threshold leaf : ValueType} {metadata : Metadata}
    {routing : TreeRouting} {choice : PostprocessorChoice} {baseScores : Array Double}
    {attributes : Option String} {start spent : Builder} {model : Model} (requests : List Request)
    (hcreate : create threshold leaf metadata routing choice baseScores attributes = .ok start)
    (hcommit : commit.apply (start.run requests) = (.ok model, spent))
    (hmemory : ∀ tree ∈ model.trees, tree.Bounded) :
    List.Forall₂ Built (Declaration.ofCalls (start.accepted requests)).trees
      model.trees.toList := by
  have hfollows := run_follows requests (create_follows hcreate)
  obtain ⟨hphase, -, rfl, -⟩ := (commit_leads _).goal_of_ok hcommit
  have htrees := hfollows.trees (by rw [hphase]; decide)
  obtain ⟨hlength, hzip⟩ := List.forall₂_iff_zip.mp htrees
  refine List.forall₂_iff_zip.mpr ⟨hlength, fun hpair => hzip hpair (hmemory _ ?_)⟩
  exact Array.mem_toList_iff.mp (List.of_mem_zip hpair).2

/-- A committed model of double precision has the thresholds and the leaf outputs that were
declared, bit by bit. -/
theorem commit_keeps_doubles {threshold leaf : ValueType} {metadata : Metadata}
    {routing : TreeRouting} {choice : PostprocessorChoice} {baseScores : Array Double}
    {attributes : Option String} {start spent : Builder} {trees : Array (Tree Double Double)}
    {info : ModelInfo} {version : FormatVersion} {optionalFields : Int32} (requests : List Request)
    (hcreate : create threshold leaf metadata routing choice baseScores attributes = .ok start)
    (hcommit : commit.apply (start.run requests) =
      (.ok ⟨⟨.double, false⟩, trees, info, version, optionalFields⟩, spent))
    (hmemory : ∀ tree ∈ trees, tree.Bounded) :
    List.Forall₂ (fun nodes tree =>
        ∀ (i : Nat) (declared : DeclaredNode), nodes[i]? = some declared →
          ∃ node, tree.node? i = some node ∧ declared.NumbersKept node)
      (Declaration.ofCalls (start.accepted requests)).trees trees.toList := by
  refine (built_of_commit requests hcreate hcommit hmemory).imp fun nodes tree hbuilt => ?_
  intro i declared hi
  exact ⟨_, hbuilt.node i declared hi, declared.numbersKept _⟩

/-- A committed model has as many trees as were announced, and they are the declared ones in order:
node by node what the accepted calls said. Its types and its metadata are those of the
descriptors. -/
theorem commit_builds_declared {threshold leaf : ValueType} {metadata : Metadata}
    {routing : TreeRouting} {choice : PostprocessorChoice} {baseScores : Array Double}
    {attributes : Option String} {start spent : Builder} {model : Model} (requests : List Request)
    (hcreate : create threshold leaf metadata routing choice baseScores attributes = .ok start)
    (hcommit : commit.apply (start.run requests) = (.ok model, spent))
    (hmemory : ∀ tree ∈ model.trees, tree.Bounded) :
    model.numTree = routing.numTree.toNat ∧
      List.Forall₂ Built (Declaration.ofCalls (start.accepted requests)).trees model.trees.toList ∧
      model.pairing.thresholdType = threshold ∧ model.pairing.leafType = leaf ∧
      Documented metadata routing choice baseScores attributes model.info := by
  have hdescribed := create_described hcreate
  have hsound := run_sound requests (create_sound hcreate)
  have hfollows := run_follows requests (create_follows hcreate)
  have hbuilt := built_of_commit requests hcreate hcommit hmemory
  obtain ⟨-, hsize, rfl, -⟩ := (commit_leads _).goal_of_ok hcommit
  obtain ⟨hthreshold, hleaf⟩ := precisionOf_eq_ok hdescribed.precision
  refine ⟨?_, hbuilt, ?_, ?_, ?_⟩
  · rw [← hdescribed.numTree, ← hsound.numTree]
    exact hsize
  · exact (congrArg Precision.valueType hfollows.precision).trans hthreshold
  · exact (congrArg Precision.valueType hfollows.precision).trans hleaf
  · show Documented _ _ _ _ _ (start.run requests).info
    rw [hsound.info]
    exact hdescribed.toDocumented

/-- A tree whose root has its right child declared before its left one, with calls that are refused
and values that are set again in between. -/
def reversedCalls : List Request :=
  [.startTree, .startNode 9, .categoricalTest 1 true [7, 3] false 2 5,
    .numericalTest 0 Score.one true .less 2 5, .leafScalar ⟨0⟩, .gain ⟨0⟩, .gain Score.one,
    .endNode, .startNode 5, .dataCount 4, .leafScalar ⟨0⟩, .endNode, .startNode 9, .endTree,
    .startNode 2, .leafScalar Score.one, .endNode, .endTree, .startTree]

/-- Children are found under their keys, of the two gains of the root the later one counts, and the
threshold and the outputs are the declared ones: one at the root and at its left child, zero at the
right one. -/
theorem commit_builds_declared_reversed :
    ∃ (start spent : Builder) (model : Model), stump 0 0 = .ok start ∧
      commit.apply (start.run reversedCalls) = (.ok model, spent) ∧
      (∀ tree ∈ model.trees, tree.Bounded) ∧
      (model.trees[0]?.bind fun tree => tree.node? 0).map
        (fun root => (root.left, root.right, root.gain, Numeric.toScalar root.threshold)) =
          some (2, 1, some Score.one, .double ⟨0x3FF0000000000000⟩) ∧
      (model.trees[0]?.map fun tree => [1, 2].map fun nid =>
        (tree.node? nid).map fun leaf => Numeric.toScalar leaf.leafValue) =
          some [some (.double ⟨0⟩), some (.double ⟨0x3FF0000000000000⟩)] ∧
      List.Forall₂ Built (Declaration.ofCalls (start.accepted reversedCalls)).trees
        model.trees.toList := by
  obtain ⟨start, spent, model, hcreate, hcommit, hsizes, hroot, hleaves⟩ :=
    exists_committed (stump 0 0) reversedCalls
      (fun model => (∀ tree ∈ model.trees, tree.leafStore.size < UInt64.size ∧
          tree.categoryStore.size < UInt64.size) ∧
        (model.trees[0]?.bind fun tree => tree.node? 0).map
          (fun root => (root.left, root.right, root.gain, Numeric.toScalar root.threshold)) =
            some (2, 1, some Score.one, .double ⟨0x3FF0000000000000⟩) ∧
        (model.trees[0]?.map fun tree => [1, 2].map fun nid =>
          (tree.node? nid).map fun leaf => Numeric.toScalar leaf.leafValue) =
            some [some (.double ⟨0⟩), some (.double ⟨0x3FF0000000000000⟩)])
      (by decide +kernel)
  have hmemory : ∀ tree ∈ model.trees, tree.Bounded := by
    intro tree htree
    obtain ⟨hleaf, hcategory⟩ := hsizes tree htree
    exact ⟨hleaf, hcategory⟩
  obtain ⟨-, hbuilt, -⟩ := commit_builds_declared reversedCalls hcreate hcommit hmemory
  exact ⟨start, spent, model, hcreate, hcommit, hmemory, hroot, hleaves, hbuilt⟩

end Arboretum.Builder

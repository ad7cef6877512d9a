import Arboretum.Proofs.Builder.Descriptors
import Arboretum.Proofs.Builder.Steps
import Arboretum.Proofs.Tree.Linking

/-!
The invariant of a builder. One call keeps it up, so any sequence of calls does, and what is handed
out in the end has been announced at the start.
-/

namespace Arboretum.Builder

variable {start b : Builder}

/-- A call need only be followed to where it goes through: a refused one changes nothing. -/
theorem Sound.leads {α : Type} {call : Edit Builder α} {goal : α → Builder → Prop}
    (h : Sound start b) (hcall : call.Leads b goal)
    (hgoal : ∀ a after, goal a after → Sound start after) : Sound start (call.apply b).2 :=
  hcall.left h hgoal

theorem create_sound {threshold leaf : ValueType} {metadata : Metadata} {routing : TreeRouting}
    {postprocessor : PostprocessorChoice} {baseScores : Array Double} {attributes : Option String}
    (h : create threshold leaf metadata routing postprocessor baseScores attributes = .ok start) :
    Sound start start := by
  have hfresh := create_described h
  refine ⟨rfl, rfl, rfl, ?_, ?_, ?_, ?_⟩
  · rw [hfresh.trees]
    simp
  · rw [hfresh.draft]
    rfl
  · rw [hfresh.draft]
    exact Int32.le_refl 0
  · rw [hfresh.draft]
    intro nid hnid
    exact absurd hnid (Nat.not_lt_zero nid)

private theorem Sound.withTree (h : Sound start b) {tree : Tree b.precision.Word b.precision.Word}
    (hnumNodes : tree.numNodes = b.draft.tree.numNodes)
    (childKeys : Array (Option (Int32 × Int32))) (phase : BuilderPhase)
    (hcomplete : ∀ nid < b.draft.tree.nodeCount, (phase = .expectDetail → nid ≠ b.draft.current) →
      tree.NodeComplete start.featureCount start.leafShape nid) :
    Sound start { b with
      draft.tree := tree
      draft.childKeys := childKeys
      phase := phase } := by
  have hcount : tree.nodeCount = b.draft.tree.nodeCount := by
    rw [Tree.nodeCount, hnumNodes, Tree.nodeCount]
  refine ⟨h.info, h.leafShape, h.numTree, h.trees, ?_, ?_, fun nid hnid => ?_⟩
  · show b.draft.keys.size = tree.nodeCount
    rw [hcount, h.counted]
  · show 0 ≤ tree.numNodes
    rw [hnumNodes]
    exact h.numNodes
  · exact hcomplete nid (Nat.lt_of_lt_of_eq hnid hcount)

/-- A builder whose current node has just been completed. -/
structure Completed (numFeature : Nat) (shape : LeafShape) (b after : Builder) : Prop where
  phase : b.phase = .expectDetail
  after_eq : ∃ tree childKeys, Tree.EditedAt b.draft.current b.draft.tree tree ∧
    tree.NodeComplete numFeature shape b.draft.current ∧
    after = { b with
      draft.tree := tree
      draft.childKeys := childKeys
      phase := .nodeComplete }

/-- What a call that gives the current node its test or its output does. -/
def Details (call : Edit Builder Unit) : Prop :=
  ∀ b, call.Leads b fun _ after => Completed b.featureCount b.leafShape b after

theorem toNat_checkFeature {b : Builder} {feature : Int32} {checked : UInt32}
    (h : b.checkFeature feature = .ok checked) : checked.toNat < b.featureCount := by
  rw [checkFeature, then_eq_ok, require_eq_ok] at h
  obtain ⟨⟨hpos, hlt⟩, h⟩ := h
  cases h
  rw [Int32.toNat_toUInt32_of_le hpos]
  rw [Int32.le_iff_toInt_le, Int32.toInt_zero] at hpos
  rw [Int32.lt_iff_toInt_lt] at hlt
  show feature.toInt.toNat < b.info.numFeature.toInt.toNat
  omega

private theorem numericalTest_details (feature : Int32) (threshold : Double) (defaultLeft : Bool)
    (comparison : Comparison) (left right : Int32) :
    Details (numericalTest feature threshold defaultLeft comparison left right) := by
  intro b
  refine (numericalTest_leads b feature threshold defaultLeft comparison left right
    fun hfeature hne => Tree.setNumericalSplit_completes b.leafShape (toNat_checkFeature hfeature)
      _ _ hne b.draft.tree).mono ?_
  rintro _ _ ⟨hphase, -, -, -, tree, ⟨hedited, hcomplete⟩, rfl⟩
  exact ⟨hphase, tree, _, hedited, hcomplete, rfl⟩

private theorem categoricalTest_details (feature : Int32) (defaultLeft : Bool)
    (categories : List UInt32) (matchGoesRight : Bool) (left right : Int32) :
    Details (categoricalTest feature defaultLeft categories matchGoesRight left right) := by
  intro b
  refine (categoricalTest_leads b feature defaultLeft categories matchGoesRight left right
    fun hfeature => Tree.setCategoricalSplit_completes b.leafShape (toNat_checkFeature hfeature)
      _ _ _ b.draft.tree).mono ?_
  rintro _ _ ⟨hphase, -, -, tree, ⟨hedited, hcomplete⟩, rfl⟩
  exact ⟨hphase, tree, _, hedited, hcomplete, rfl⟩

private theorem leafScalar_details (value : Double) : Details (leafScalar value) := by
  intro b
  refine (leafScalar_leads b value fun _ => Tree.setLeaf_completes b.featureCount _
    b.draft.tree).mono ?_
  rintro _ _ ⟨hphase, hshape, tree, ⟨hedited, hcomplete⟩, rfl⟩
  exact ⟨hphase, tree, _, hedited, hshape ▸ hcomplete, rfl⟩

private theorem leafVector_details {α : Type} [Numeric α] (values : Array α) :
    Details (leafVector values) := by
  intro b
  refine (leafVector_leads b values fun hsize => Tree.setLeafVector_completes b.featureCount
    (by rw [Array.size_map, hsize]) b.draft.tree).mono ?_
  rintro _ _ ⟨hphase, -, -, tree, ⟨hedited, hcomplete⟩, rfl⟩
  exact ⟨hphase, tree, _, hedited, hcomplete, rfl⟩

private theorem Sound.details {call : Edit Builder Unit} (hcall : Details call)
    (h : Sound start b) :
    Sound start (call.apply b).2 := by
  refine h.leads (hcall b) ?_
  rintro _ _ ⟨hphase, tree, childKeys, hedited, hcomplete, rfl⟩
  refine h.withTree hedited.numNodes childKeys .nodeComplete fun nid hnid _ => ?_
  by_cases hcurrent : nid = b.draft.current
  · have hfeatures : b.featureCount = start.featureCount := by
      rw [featureCount, h.info, featureCount]
    rw [hcurrent, ← h.leafShape, ← hfeatures]
    exact hcomplete
  · exact (hedited.other nid hcurrent).complete (h.complete nid hnid fun _ => hcurrent)

/-- What a call that records a statistic of the current node does. -/
def Records (call : Edit Builder Unit) : Prop :=
  ∀ b, call.Leads b fun _ after => ∃ tree, after = { b with draft.tree := tree } ∧
    tree.numNodes = b.draft.tree.numNodes ∧ ∀ m, Tree.SameAt m b.draft.tree tree

private theorem records_of_annotates {call : BuilderCall}
    (hcall : call = .gain ∨ call = .dataCount ∨ call = .sumHess)
    {edit : (p : Precision) → Nat → Edit (Tree p.Word p.Word) Unit}
    (hedit : ∀ p nid, Tree.Annotates (edit p nid)) :
    Records (do
      let phase ← enter call
      editCurrent edit
      proceed phase) := by
  intro b
  refine (statistic_leads b hcall (hedit b.precision b.draft.current b.draft.tree)).mono ?_
  rintro _ _ ⟨-, tree, ⟨hcount, hsame⟩, rfl⟩
  exact ⟨tree, rfl, hcount, hsame⟩

private theorem gain_records (amount : Double) : Records (gain amount) :=
  records_of_annotates (by simp) fun _ _ => Tree.setGain_annotates amount

private theorem dataCount_records (count : UInt64) : Records (dataCount count) :=
  records_of_annotates (by simp) fun _ _ => Tree.setDataCount_annotates count

private theorem sumHess_records (sum : Double) : Records (sumHess sum) :=
  records_of_annotates (by simp) fun _ _ => Tree.setSumHess_annotates sum

private theorem Sound.records {call : Edit Builder Unit} (hcall : Records call)
    (h : Sound start b) :
    Sound start (call.apply b).2 := by
  refine h.leads (hcall b) ?_
  rintro _ _ ⟨tree, rfl, hnumNodes, hsame⟩
  exact h.withTree hnumNodes b.draft.childKeys b.phase fun nid hnid hcurrent =>
    (hsame nid).complete (h.complete nid hnid hcurrent)

private theorem Sound.withEmpty (h : Sound start b)
    {trees : Array (Tree b.precision.Word b.precision.Word)} (phase : BuilderPhase)
    (htrees : ∀ tree ∈ trees, Finished start.featureCount start.leafShape tree) :
    Sound start { b with trees := trees, draft := .empty, phase := phase } :=
  ⟨h.info, h.leafShape, h.numTree, htrees, rfl, Int32.le_refl 0,
    fun nid hnid => absurd hnid (Nat.not_lt_zero nid)⟩

private theorem startTree_sound (h : Sound start b) : Sound start (startTree.apply b).2 := by
  refine h.leads (startTree_leads b) ?_
  rintro _ _ ⟨-, -, rfl⟩
  exact h.withEmpty .expectNode h.trees

/-- A tree is closed when all keys of children are known, and it is checked then. -/
theorem finish_eq_ok {T : Type} {draft : Draft T} {tree : Tree T T}
    (h : draft.finish = .ok tree) : ∃ links, draft.links = .ok links ∧
      tree = draft.tree.linkAll links ∧ tree.validate = .ok () := by
  rw [Draft.finish] at h
  obtain ⟨links, hlinks, h⟩ := bind_eq_ok.mp h
  rcases hset : (Tree.setAllChildren links).apply draft.tree with ⟨result, linked⟩
  rw [hset] at h
  obtain ⟨hresult, h⟩ := then_eq_ok.mp h
  obtain ⟨hvalid, h⟩ := then_eq_ok.mp h
  cases h
  cases hresult
  exact ⟨links, hlinks, Tree.apply_setAllChildren hset, hvalid⟩

private theorem endTree_sound (h : Sound start b) : Sound start (endTree.apply b).2 := by
  refine h.leads (endTree_leads b) ?_
  rintro _ _ ⟨hphase, hpos, tree, hfinish, rfl⟩
  refine h.withEmpty .expectTree ?_
  intro other hother
  rcases Array.mem_push.mp hother with hother | rfl
  · exact h.trees other hother
  · obtain ⟨links, -, rfl, hvalid⟩ := finish_eq_ok hfinish
    have hcount := Tree.nodeCount_linkAll links b.draft.tree
    have hsame : ∀ nid, Tree.SameAt nid b.draft.tree (b.draft.tree.linkAll links) := by
      intro nid
      obtain ⟨left, right, hall⟩ := Tree.linkAll_eq links b.draft.tree
      rw [hall]
      exact ⟨rfl, rfl, rfl, rfl, rfl⟩
    refine ⟨hvalid, hcount ▸ hpos, fun nid hnid => (hsame nid).complete ?_⟩
    refine h.complete nid (hcount ▸ hnid) ?_
    rw [hphase]
    exact fun hdetail => nomatch hdetail

private theorem startNode_sound (key : Int32) (h : Sound start b) :
    Sound start ((startNode key).apply b).2 := by
  refine h.leads (startNode_leads b key) ?_
  rintro _ _ ⟨hphase, -, -, hcolumnar, hlt, rfl⟩
  obtain ⟨hpos, hcount⟩ := Tree.nodeCount_pushNode h.numNodes hlt
  refine ⟨h.info, h.leafShape, h.numTree, h.trees, ?_, hpos, ?_⟩
  · show (b.draft.keys.push key).size = b.draft.tree.pushNode.nodeCount
    rw [Array.size_push, h.counted, hcount]
  · intro nid hnid hcurrent
    have hne : nid ≠ b.draft.tree.nodeCount := by
      have hlast := hcurrent rfl
      unfold Draft.current at hlast
      simpa [h.counted] using hlast
    have hnid : nid < b.draft.tree.pushNode.nodeCount := hnid
    have hold : nid < b.draft.tree.nodeCount := by omega
    refine (Tree.sameAt_pushNode hcolumnar hold).complete (h.complete nid hold ?_)
    rw [hphase]
    exact fun hdetail => nomatch hdetail

private theorem Sound.withPhase (h : Sound start b) (hphase : b.phase ≠ .expectDetail)
    (phase : BuilderPhase) : Sound start { b with phase := phase } :=
  ⟨h.info, h.leafShape, h.numTree, h.trees, h.counted, h.numNodes,
    fun nid hnid _ => h.complete nid hnid fun hdetail => absurd hdetail hphase⟩

private theorem endNode_sound (h : Sound start b) : Sound start (endNode.apply b).2 := by
  refine h.leads (endNode_leads b) ?_
  rintro _ _ ⟨hphase, rfl⟩
  exact h.withPhase (by rw [hphase]; decide) .expectNode

private theorem commit_sound (h : Sound start b) :
    Sound start (Request.commit.perform.apply b).2 := by
  have hcall : Request.commit.perform.Leads b fun _ after => b.phase = .expectTree ∧
      after = { b with trees := #[], phase := .modelComplete } := by
    refine .bind ((commit_leads b).mono ?_)
    rintro _ after ⟨hphase, -, -, hafter⟩
    exact ⟨(), after, rfl, hphase, hafter⟩
  refine h.leads hcall ?_
  rintro _ _ ⟨hphase, rfl⟩
  have hspent := h.withPhase (by rw [hphase]; decide) .modelComplete
  exact ⟨hspent.info, hspent.leafShape, hspent.numTree, by simp, hspent.counted, hspent.numNodes,
    hspent.complete⟩

theorem perform_sound (request : Request) (h : Sound start b) :
    Sound start (request.perform.apply b).2 := by
  cases request with
  | startTree => exact startTree_sound h
  | endTree => exact endTree_sound h
  | startNode key => exact startNode_sound key h
  | endNode => exact endNode_sound h
  | numericalTest feature threshold defaultLeft comparison left right =>
    exact h.details (numericalTest_details feature threshold defaultLeft comparison left right)
  | categoricalTest feature defaultLeft categories matchGoesRight left right =>
    exact h.details
      (categoricalTest_details feature defaultLeft categories matchGoesRight left right)
  | leafScalar value => exact h.details (leafScalar_details value)
  | leafVector values => exact h.details (leafVector_details values)
  | gain amount => exact h.records (gain_records amount)
  | dataCount count => exact h.records (dataCount_records count)
  | sumHess sum => exact h.records (sumHess_records sum)
  | commit => exact commit_sound h

/-- A run of calls keeps the invariant up. -/
theorem run_sound (requests : List Request) (h : Sound start b) :
    Sound start (b.run requests) := by
  induction requests generalizing b with
  | nil => exact h
  | cons request requests ih => exact ih (perform_sound request h)

end Arboretum.Builder

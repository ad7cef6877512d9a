import Arboretum.Proofs.Builder.Acceptance
import Arboretum.Proofs.Tree.Stores

/-!
The stages of a run. A builder stands where a declaration and a phase of the protocol say: it shows
what was declared, everything declared has passed its checks, and the stores of its trees hold what
was handed over and nothing else. A call that goes through takes it to the next stage.
-/

namespace Arboretum

namespace Request

def outputCount : Request → Nat
  | leafVector values => values.size
  | _ => 0

def categoryCount : Request → Nat
  | categoricalTest _ _ categories _ _ _ => categories.length
  | _ => 0

end Request

/-- A node that has passed the checks of a builder. -/
structure DeclaredNode.Fits (b : Builder) (declared : DeclaredNode) : Prop where
  nonneg : 0 ≤ declared.key
  detail : ∀ request ∈ declared.detail?, request.Fits b declared.key

/-- What the tests and outputs of nodes have handed over. -/
def handedOver (count : Request → Nat) (nodes : List DeclaredNode) : Nat :=
  (nodes.map fun declared => declared.detail?.elim 0 count).sum

section HandedOver

variable {count : Request → Nat} {done : List DeclaredNode} {last : DeclaredNode}
  {request : Request}

private theorem handedOver_push (key : Int32) :
    handedOver count (done ++ [⟨key, []⟩]) = handedOver count done := by
  simp [handedOver, DeclaredNode.detail?]

private theorem handedOver_detail (hnone : last.calls.filter Request.isDetail = [])
    (hrequest : request.isDetail = true) :
    handedOver count (done ++ [last.add request]) =
      handedOver count (done ++ [last]) + count request := by
  simp [handedOver, DeclaredNode.detail?_add_detail hnone hrequest,
    DeclaredNode.detail?_of_none hnone]

private theorem handedOver_statistic (hrequest : request.isDetail = false) :
    handedOver count (done ++ [last.add request]) = handedOver count (done ++ [last]) := by
  simp only [handedOver, List.map_append, List.map_singleton, DeclaredNode.detail?_add hrequest]

end HandedOver

/-- A tree whose stores hold what its nodes were given. -/
structure Stocked {T L : Type} (nodes : List DeclaredNode) (tree : Tree T L) : Prop where
  outputs : tree.leafStore.size = handedOver Request.outputCount nodes
  categories : tree.categoryStore.size = handedOver Request.categoryCount nodes
  ranges : tree.Bounded → tree.RangesFit

namespace Stocked

variable {T L : Type} {nodes more : List DeclaredNode} {tree after : Tree T L}

theorem empty : Stocked [] (Tree.empty : Tree T L) := ⟨rfl, rfl, fun _ => Tree.rangesFit_empty⟩

private theorem grow (h : Stocked nodes tree) {outputs categories : Nat}
    (hgrown : Tree.Grown outputs categories tree after)
    (houtputs : handedOver Request.outputCount more =
      handedOver Request.outputCount nodes + outputs)
    (hcategories : handedOver Request.categoryCount more =
      handedOver Request.categoryCount nodes + categories) : Stocked more after := by
  have hleaf := hgrown.leafStore
  have hcategory := hgrown.categoryStore
  refine ⟨?_, ?_, fun hb => hgrown.ranges hb (h.ranges ⟨?_, ?_⟩)⟩
  · rw [houtputs, ← h.outputs, hleaf]
  · rw [hcategories, ← h.categories, hcategory]
  · have hlt := hb.leafStore
    omega
  · have hlt := hb.categoryStore
    omega

theorem linkAll (h : Stocked nodes tree) (links : List (Nat × Nat × Nat)) :
    Stocked nodes (tree.linkAll links) := by
  obtain ⟨left, right, hlinked⟩ := Tree.linkAll_eq links tree
  rw [hlinked]
  refine ⟨h.outputs, h.categories, fun hb => ?_⟩
  obtain ⟨hleaf, hcategory⟩ := h.ranges ⟨hb.leafStore, hb.categoryStore⟩
  exact ⟨hleaf, hcategory⟩

/-- What was handed over decides whether 64 bits count it. -/
theorem bounded_iff (h : Stocked nodes tree) : tree.Bounded ↔
    handedOver Request.outputCount nodes < UInt64.size ∧
      handedOver Request.categoryCount nodes < UInt64.size := by
  rw [← h.outputs, ← h.categories]
  constructor
  · rintro ⟨hleaf, hcategory⟩
    exact ⟨hleaf, hcategory⟩
  · rintro ⟨hleaf, hcategory⟩
    exact ⟨hleaf, hcategory⟩

end Stocked

theorem Draft.Follows.current_key {T : Type} [Score T] {draft : Draft T}
    {done : List DeclaredNode} {last : DeclaredNode} (h : draft.Follows (done ++ [last])) :
    draft.keys.getD draft.current (-1) = last.key := by
  rw [Array.getD_eq_getD_getElem?, ← Array.getElem?_toList, h.keys, h.current_eq, List.map_append,
    ← List.length_map DeclaredNode.key, List.map_singleton, List.getElem?_concat_length,
    Option.getD_some]

namespace Builder

open Edit.Leads (noModel)

/-- A builder whose declared nodes have passed all checks and whose trees hold what they were
given. -/
structure Vetted (start : Builder) (declaration : Declaration) (b : Builder) : Prop where
  closed : ∀ nodes ∈ declaration.trees, ∀ declared ∈ nodes, declared.Fits start
  opened : ∀ declared ∈ declaration.nodes, declared.Fits start
  draft : Stocked declaration.nodes b.draft.tree
  trees : b.phase ≠ .modelComplete → List.Forall₂ Stocked declaration.trees b.trees.toList

/-- A builder that has come to a stage. -/
structure Stands (start : Builder) (declaration : Declaration) (phase : BuilderPhase)
    (b : Builder) : Prop where
  follows : Follows start declaration b
  sound : Sound start b
  vetted : Vetted start declaration b
  phase_eq : b.phase = phase

namespace Stands

variable {start b : Builder} {declaration : Declaration} {phase : BuilderPhase}
  {request : Request} {tree : Tree b.precision.Word b.precision.Word}

theorem fits_iff (h : Stands start declaration phase b) (key : Int32) (request : Request) :
    request.Fits start key ↔ request.Fits b key :=
  Request.fits_iff h.sound.info.symm h.sound.leafShape.symm h.follows.precision.symm key request

theorem detail (h : Stands start declaration phase b) (request : Request)
    (hphase : b.phase = .expectDetail) (hrequest : request.isDetail = true)
    (hfits : request.Fits b (b.draft.keys.getD b.draft.current (-1)))
    (hgrown : Tree.Grown request.outputCount request.categoryCount b.draft.tree tree)
    (childKeys : Array (Option (Int32 × Int32))) :
    Vetted start (declaration.add request) { b with
      draft := ⟨tree, b.draft.keys, childKeys⟩
      phase := .nodeComplete } := by
  obtain ⟨done, last, hnodes, hnone, -⟩ : Phased declaration.nodes .expectDetail :=
    hphase ▸ h.follows.phase
  have hdraft := h.follows.draft
  have hopened := h.vetted.opened
  have hstocked := h.vetted.draft
  rw [hnodes] at hdraft hopened hstocked
  rw [declaration.add_of_call (.inl hrequest), hnodes, List.modifyLast_concat]
  refine ⟨h.vetted.closed, ?_, hstocked.grow hgrown (handedOver_detail hnone hrequest)
    (handedOver_detail hnone hrequest), fun _ => h.vetted.trees (by rw [hphase]; decide)⟩
  obtain ⟨hdone, hlast⟩ := List.forall_mem_append.mp hopened
  refine List.forall_mem_append.mpr ⟨hdone, List.forall_mem_singleton.mpr ⟨?_, ?_⟩⟩
  · exact (hlast last (List.mem_singleton_self last)).nonneg
  · intro given hgiven
    rw [DeclaredNode.detail?_add_detail hnone hrequest, Option.mem_some] at hgiven
    rw [← hgiven, h.fits_iff]
    rw [hdraft.current_key] at hfits
    exact hfits

theorem statistic (h : Stands start declaration phase b)
    (hopen : b.phase = .expectDetail ∨ b.phase = .nodeComplete)
    (hrequest : request.isStatistic = true) (hgrown : Tree.Grown 0 0 b.draft.tree tree) :
    Vetted start (declaration.add request) { b with draft.tree := tree } := by
  have hnot := Request.isDetail_of_isStatistic hrequest
  obtain ⟨done, last, hnodes⟩ := h.follows.phase.exists_last hopen
  have hopened := h.vetted.opened
  have hstocked := h.vetted.draft
  rw [hnodes] at hopened hstocked
  rw [declaration.add_of_call (.inr hrequest), hnodes, List.modifyLast_concat]
  refine ⟨h.vetted.closed, ?_, hstocked.grow hgrown (handedOver_statistic hnot)
    (handedOver_statistic hnot), h.vetted.trees⟩
  obtain ⟨hdone, hlast⟩ := List.forall_mem_append.mp hopened
  obtain ⟨hnonneg, hdetail⟩ := hlast last (List.mem_singleton_self last)
  refine List.forall_mem_append.mpr ⟨hdone, List.forall_mem_singleton.mpr ⟨hnonneg, ?_⟩⟩
  rw [DeclaredNode.detail?_add hnot]
  exact hdetail

/-- What one call has been checked for and has stored. -/
theorem call_vetted (h : Stands start declaration phase b) (request : Request) :
    request.call.Leads b fun _ after => Vetted start (declaration.add request) after := by
  cases request with
  | startTree =>
    refine noModel (startTree_leads b) ?_
    rintro _ ⟨hphase, -, rfl⟩
    exact ⟨h.vetted.closed, List.forall_mem_nil _, .empty,
      fun _ => h.vetted.trees (by rw [hphase]; decide)⟩
  | endTree =>
    refine noModel (endTree_leads b) ?_
    rintro _ ⟨hphase, -, tree, hfinish, rfl⟩
    obtain ⟨links, -, rfl, -⟩ := finish_eq_ok hfinish
    refine ⟨List.forall_mem_append.mpr ⟨h.vetted.closed,
      List.forall_mem_singleton.mpr h.vetted.opened⟩, List.forall_mem_nil _, .empty, fun _ => ?_⟩
    rw [Array.toList_push]
    exact List.rel_append (h.vetted.trees (by rw [hphase]; decide))
      (.cons (h.vetted.draft.linkAll links) .nil)
  | startNode key =>
    refine noModel (startNode_leads b key) ?_
    rintro _ ⟨hphase, hkey, -, hcolumnar, -, rfl⟩
    refine ⟨h.vetted.closed, List.forall_mem_append.mpr ⟨h.vetted.opened,
      List.forall_mem_singleton.mpr ⟨hkey, ?_⟩⟩, ?_,
      fun _ => h.vetted.trees (by rw [hphase]; decide)⟩
    · intro request hrequest
      cases hrequest
    · exact h.vetted.draft.grow (Tree.pushNode_grown hcolumnar) (handedOver_push key)
        (handedOver_push key)
  | endNode =>
    refine noModel (endNode_leads b) ?_
    rintro _ ⟨hphase, rfl⟩
    exact ⟨h.vetted.closed, h.vetted.opened, h.vetted.draft,
      fun _ => h.vetted.trees (by rw [hphase]; decide)⟩
  | numericalTest feature threshold defaultLeft comparison left right =>
    refine noModel (numericalTest_leads b feature threshold defaultLeft comparison left right
      fun _ _ => Tree.setNumericalSplit_grown _ _ _ _) ?_
    rintro _ ⟨hphase, hfeature, hkeys, hne, tree, hgrown, rfl⟩
    exact h.detail (.numericalTest feature threshold defaultLeft comparison left right) hphase rfl
      ⟨hfeature, Draft.checkChildKeys_eq_ok.mp hkeys, hne⟩ hgrown _
  | categoricalTest feature defaultLeft categories matchGoesRight left right =>
    refine noModel
      (categoricalTest_leads b feature defaultLeft categories matchGoesRight left right
        fun _ => Tree.setCategoricalSplit_grown _ _ _ _) ?_
    rintro _ ⟨hphase, hfeature, hkeys, tree, hgrown, rfl⟩
    exact h.detail (.categoricalTest feature defaultLeft categories matchGoesRight left right)
      hphase rfl ⟨hfeature, Draft.checkChildKeys_eq_ok.mp hkeys⟩ hgrown _
  | leafScalar value =>
    refine noModel (leafScalar_leads b value fun _ => Tree.setLeaf_grown _) ?_
    rintro _ ⟨hphase, hshape, tree, hgrown, rfl⟩
    exact h.detail (.leafScalar value) hphase rfl hshape hgrown _
  | leafVector values =>
    refine noModel (leafVector_leads b values fun _ => Tree.setLeafVector_grown _) ?_
    rintro _ ⟨hphase, htype, hsize, tree, hgrown, rfl⟩
    rw [Array.size_map] at hgrown
    exact h.detail (.leafVector values) hphase rfl ⟨htype, hsize⟩ hgrown _
  | gain amount =>
    refine noModel (gain_leads b amount (Tree.setGain_grown amount)) ?_
    rintro _ ⟨hopen, tree, hgrown, rfl⟩
    exact h.statistic hopen rfl hgrown
  | dataCount count =>
    refine noModel (dataCount_leads b count (Tree.setDataCount_grown count)) ?_
    rintro _ ⟨hopen, tree, hgrown, rfl⟩
    exact h.statistic hopen rfl hgrown
  | sumHess sum =>
    refine noModel (sumHess_leads b sum (Tree.setSumHess_grown sum)) ?_
    rintro _ ⟨hopen, tree, hgrown, rfl⟩
    exact h.statistic hopen rfl hgrown
  | commit =>
    refine .bind ((commit_leads b).mono ?_)
    rintro model _ ⟨-, -, -, rfl⟩
    exact ⟨_, _, rfl, h.vetted.closed, h.vetted.opened, h.vetted.draft,
      fun hphase => absurd rfl hphase⟩

/-- A call that goes through takes a builder to the next stage. -/
theorem call (h : Stands start declaration phase b) (request : Request) :
    request.call.Leads b fun _ after => ∃ next, phase.after? request.kind = some next ∧
      Stands start (declaration.add request) next after := by
  rcases request.call_leads b with hrefused | ⟨answer, after, hcall, -⟩
  · exact .inl hrefused
  · obtain ⟨-, hturn⟩ := (b.call_turns request).goal_of_ok hcall
    have hsound := perform_sound request h.sound
    rw [request.call_apply, hcall] at hsound
    refine .inr ⟨answer, after, hcall, after.phase, ?_, ?_⟩
    · rw [← h.phase_eq]
      exact hturn.after?_eq
    · exact ⟨(h.follows.call_leads request).goal_of_ok hcall, hsound,
        (h.call_vetted request).goal_of_ok hcall, rfl⟩

end Stands

/-- A run of calls takes a builder to the stage that the accepted ones lead to. -/
theorem run_stands (requests : List Request) {start b : Builder} {declaration : Declaration}
    {phase : BuilderPhase} (h : Stands start declaration phase b) :
    Stands start ((b.accepted requests).foldl Declaration.add declaration)
      (b.run requests).phase (b.run requests) := by
  induction requests generalizing b declaration phase with
  | nil => exact h.phase_eq ▸ h
  | cons request requests ih =>
    rw [run_cons]
    rcases accepted_cons b request requests with ⟨answer, after, hcall, hkept⟩ | ⟨e, hcall, hkept⟩
    · obtain ⟨next, -, hnext⟩ := (h.call request).goal_of_ok hcall
      rw [hcall, hkept]
      exact ih hnext
    · rw [hcall, hkept]
      exact ih h

theorem create_stands {threshold leaf : ValueType} {metadata : Metadata} {routing : TreeRouting}
    {choice : PostprocessorChoice} {baseScores : Array Double} {attributes : Option String}
    {start : Builder}
    (h : create threshold leaf metadata routing choice baseScores attributes = .ok start) :
    Stands start ⟨[], []⟩ .expectTree start := by
  have hfresh := create_described h
  refine ⟨create_follows h, create_sound h, ⟨List.forall_mem_nil _, List.forall_mem_nil _, ?_,
    fun _ => ?_⟩, hfresh.phase⟩
  · rw [hfresh.draft]
    exact .empty
  · rw [hfresh.trees]
    exact .nil

end Builder

end Arboretum

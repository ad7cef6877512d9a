import Arboretum.Proofs.Builder.Protocol
import Arboretum.Proofs.Tree.Acceptance

/-!
What a builder asks of a call, and that it asks nothing else: a call that comes in its turn goes
through when its arguments fit the builder and the keys of the open tree.
-/

namespace Arboretum

/-- Two children that the node with the given key may name. -/
structure ChildrenFit (key left right : Int32) : Prop where
  nonneg : 0 ≤ left ∧ 0 ≤ right
  distinct : left ≠ right
  others : left ≠ key ∧ right ≠ key

namespace Request

/-- What a builder asks of a test or an output for the node with the given key. -/
def Fits (b : Builder) (key : Int32) : Request → Prop
  | numericalTest feature _ _ comparison left right =>
    b.checkFeature feature = .ok feature.toUInt32 ∧ ChildrenFit key left right ∧
      comparison ≠ .never
  | categoricalTest feature _ _ _ left right =>
    b.checkFeature feature = .ok feature.toUInt32 ∧ ChildrenFit key left right
  | leafScalar _ => b.leafShape = .scalar
  | @leafVector α _ values =>
    Numeric.valueType α = b.precision.valueType ∧ values.size = b.leafShape.size
  | _ => True

/-- Only the descriptors of a builder and its types matter. -/
theorem fits_iff {b other : Builder} (hinfo : b.info = other.info)
    (hshape : b.leafShape = other.leafShape) (hprecision : b.precision = other.precision)
    (key : Int32) (request : Request) : request.Fits b key ↔ request.Fits other key := by
  have hfeature : ∀ feature, b.checkFeature feature = other.checkFeature feature := by
    intro feature
    rw [Builder.checkFeature, hinfo, Builder.checkFeature]
  cases request <;> simp only [Fits, hfeature, hshape, hprecision]

end Request

theorem Draft.checkChildKeys_eq_ok {T : Type} {draft : Draft T} {left right : Int32} :
    draft.checkChildKeys left right = .ok () ↔
      ChildrenFit (draft.keys.getD draft.current (-1)) left right := by
  simp only [Draft.checkChildKeys, then_eq_ok, require_eq_ok]
  constructor
  · rintro ⟨hnonneg, hdistinct, hothers⟩
    exact ⟨hnonneg, hdistinct, hothers⟩
  · rintro ⟨hnonneg, hdistinct, hothers⟩
    exact ⟨hnonneg, hdistinct, hothers⟩

namespace Builder

open Edit (Succeeds)

section Calls

variable {b : Builder}

private theorem enter_succeeds {α : Type} {call : BuilderCall}
    {next : BuilderPhase → Edit Builder α}
    {phase : BuilderPhase} (hphase : b.phase.after? call = some phase)
    (h : (next phase).Succeeds b) : (enter call >>= next).Succeeds b := by
  obtain ⟨a, after, ha⟩ := h
  refine ⟨a, after, Edit.apply_bind_eq_ok.mpr ⟨phase, b, ?_, ha⟩⟩
  rw [enter, Edit.apply_bind, Edit.apply_get]
  dsimp only
  rw [hphase]
  rfl

private theorem editTree_succeeds {α : Type} {edit : (p : Precision) → Edit (Tree p.Word p.Word) α}
    (h : (edit b.precision).Succeeds b.draft.tree) : (editTree edit).Succeeds b := by
  obtain ⟨a, tree, ha⟩ := h
  rw [Succeeds, editTree_apply, ha]
  exact ⟨a, _, rfl⟩

private theorem editCurrent_succeeds {edit : (p : Precision) → Nat → Edit (Tree p.Word p.Word) Unit}
    (h : (edit b.precision b.draft.current).Succeeds b.draft.tree) :
    (editCurrent edit).Succeeds b := by
  rw [editCurrent]
  exact .get_bind (editTree_succeeds h)

private theorem noModel_succeeds {edit : Edit Builder Unit} (h : edit.Succeeds b) :
    (edit >>= fun _ => pure (none : Option Model)).Succeeds b :=
  h.bind fun _ after _ => ⟨none, after, rfl⟩

theorem startTree_succeeds (hphase : b.phase = .expectTree)
    (hroom : b.trees.size < b.numTree.toNat) : Request.startTree.call.Succeeds b := by
  refine noModel_succeeds ?_
  show startTree.Succeeds b
  rw [startTree]
  exact enter_succeeds (by rw [hphase]; rfl) (.get_bind (.require_bind hroom ⟨_, _, rfl⟩))

theorem endTree_of_finish (hphase : b.phase = .expectNode)
    (hnodes : 0 < b.draft.tree.nodeCount) {tree : Tree b.precision.Word b.precision.Word}
    (hfinish : b.draft.finish = .ok tree) : endTree.Succeeds b := by
  rw [endTree]
  exact enter_succeeds (by rw [hphase]; rfl)
    (.get_bind (.require_bind hnodes (.lift_bind hfinish ⟨_, _, rfl⟩)))

theorem endTree_succeeds (hphase : b.phase = .expectNode) (hnodes : 0 < b.draft.tree.nodeCount)
    {tree : Tree b.precision.Word b.precision.Word} (hfinish : b.draft.finish = .ok tree) :
    Request.endTree.call.Succeeds b :=
  noModel_succeeds (endTree_of_finish hphase hnodes hfinish)

theorem startNode_succeeds (hphase : b.phase = .expectNode) {key : Int32} (hkey : 0 ≤ key)
    (hnew : key ∉ b.draft.keys) (hcolumnar : b.draft.tree.Columnar)
    (hlt : b.draft.tree.numNodes < Int32.maxValue) :
    (Request.startNode key).call.Succeeds b := by
  refine noModel_succeeds ?_
  show (startNode key).Succeeds b
  rw [startNode]
  refine enter_succeeds (by rw [hphase]; rfl)
    (.get_bind (.require_bind hkey (.require_bind hnew ?_)))
  refine .bind (editTree_succeeds ?_) fun _ _ _ => ⟨_, _, rfl⟩
  rw [Tree.allocNode]
  exact .get_bind (.lift_bind (Tree.checkColumnSizes_eq_ok.mpr hcolumnar)
    (.require_bind hlt ⟨_, _, rfl⟩))

theorem endNode_succeeds (hphase : b.phase = .nodeComplete) : Request.endNode.call.Succeeds b := by
  refine noModel_succeeds ?_
  show endNode.Succeeds b
  rw [endNode]
  exact enter_succeeds (by rw [hphase]; rfl) ⟨_, _, rfl⟩

private theorem checkFeature_lt {feature : Int32} {checked : UInt32}
    (h : b.checkFeature feature = .ok checked) : checked < featureBound := by
  have hlt := toNat_checkFeature h
  have hmax := b.info.numFeature.toInt_lt
  rw [UInt32.lt_iff_toNat_lt]
  show checked.toNat < 2147483647
  unfold featureCount at hlt
  omega

theorem detail_succeeds (hphase : b.phase = .expectDetail)
    (hcurrent : b.draft.current + 1 = b.draft.tree.nodeCount) {request : Request}
    (hdetail : request.isDetail = true)
    (hfits : request.Fits b (b.draft.keys.getD b.draft.current (-1))) :
    request.call.Succeeds b := by
  have hnid : b.draft.current < b.draft.tree.nodeCount := by omega
  cases request with
  | numericalTest feature threshold defaultLeft comparison left right =>
    obtain ⟨hfeature, hchildren, hne⟩ := hfits
    refine noModel_succeeds ?_
    show (numericalTest feature threshold defaultLeft comparison left right).Succeeds b
    rw [numericalTest]
    refine enter_succeeds (by rw [hphase]; rfl) (.get_bind (.lift_bind hfeature
      (.lift_bind (Draft.checkChildKeys_eq_ok.mpr hchildren) (.require_bind hne ?_))))
    exact .bind (editCurrent_succeeds
      (Tree.setNumericalSplit_succeeds hnid (checkFeature_lt hfeature) _ _ _))
      fun _ _ _ => ⟨_, _, rfl⟩
  | categoricalTest feature defaultLeft categories matchGoesRight left right =>
    obtain ⟨hfeature, hchildren⟩ := hfits
    refine noModel_succeeds ?_
    show (categoricalTest feature defaultLeft categories matchGoesRight left right).Succeeds b
    rw [categoricalTest]
    refine enter_succeeds (by rw [hphase]; rfl) (.get_bind (.lift_bind hfeature
      (.lift_bind (Draft.checkChildKeys_eq_ok.mpr hchildren) ?_)))
    exact .bind (editCurrent_succeeds
      (Tree.setCategoricalSplit_succeeds hcurrent (checkFeature_lt hfeature) _ _ _))
      fun _ _ _ => ⟨_, _, rfl⟩
  | leafScalar value =>
    refine noModel_succeeds ?_
    show (leafScalar value).Succeeds b
    rw [leafScalar]
    refine enter_succeeds (by rw [hphase]; rfl) (.get_bind (.require_bind hfits ?_))
    exact .bind (editCurrent_succeeds (Tree.modify_succeeds hnid _)) fun _ _ _ => ⟨_, _, rfl⟩
  | leafVector values =>
    obtain ⟨htype, hsize⟩ := hfits
    refine noModel_succeeds ?_
    show (leafVector values).Succeeds b
    rw [leafVector]
    refine enter_succeeds (by rw [hphase]; rfl)
      (.get_bind (.require_bind htype (.require_bind hsize ?_)))
    exact .bind (editCurrent_succeeds (Tree.modify_succeeds hnid _)) fun _ _ _ => ⟨_, _, rfl⟩
  | startTree | endTree | startNode | endNode | gain | dataCount | sumHess | commit =>
    cases hdetail

theorem statistic_succeeds (hphase : b.phase = .expectDetail ∨ b.phase = .nodeComplete)
    (hcurrent : b.draft.current + 1 = b.draft.tree.nodeCount) {request : Request}
    (hstatistic : request.isStatistic = true) : request.call.Succeeds b := by
  have hafter : b.phase.after? request.kind = some b.phase := by
    rcases hphase with hphase | hphase
    all_goals
      rw [hphase]
      cases request <;> first | rfl | cases hstatistic
  have hnid : b.draft.current < b.draft.tree.nodeCount := by omega
  have hrecord : ∀ {edit : (p : Precision) → Nat → Edit (Tree p.Word p.Word) Unit},
      (edit b.precision b.draft.current).Succeeds b.draft.tree →
      (do
        let phase ← enter request.kind
        editCurrent edit
        proceed phase : Edit Builder Unit).Succeeds b :=
    fun h => enter_succeeds hafter (.bind (editCurrent_succeeds h) fun _ _ _ => ⟨_, _, rfl⟩)
  cases request with
  | gain amount => exact noModel_succeeds (hrecord (Tree.modify_succeeds hnid _))
  | dataCount count => exact noModel_succeeds (hrecord (Tree.modify_succeeds hnid _))
  | sumHess sum => exact noModel_succeeds (hrecord (Tree.modify_succeeds hnid _))
  | startTree | endTree | startNode | endNode | numericalTest | categoricalTest | leafScalar
  | leafVector | commit => cases hstatistic

theorem commit_succeeds (hphase : b.phase = .expectTree)
    (hall : b.trees.size = b.numTree.toNat) : commit.Succeeds b := by
  rw [commit]
  exact enter_succeeds (by rw [hphase]; rfl) (.get_bind (.require_bind hall ⟨_, _, rfl⟩))

end Calls

end Builder

end Arboretum

import Arboretum.Proofs.Builder.Run

/-!
The calls of a builder, one by one: when a call goes through, and what it leaves behind. Everything
that a call asks of its arguments and of the phase stands in front of the change that it makes, so a
call that does not go through has changed nothing.
-/

namespace Arboretum.Builder

variable (b : Builder)

theorem startTree_leads : startTree.Leads b fun _ after => b.phase = .expectTree ∧
    b.trees.size < b.numTree.toNat ∧ after = { b with draft := .empty, phase := .expectNode } := by
  rw [startTree]
  refine enter_leads fun phase hphase => .get_bind (.require_bind fun hsize => .of_eq rfl ?_)
  obtain ⟨hexpect, rfl⟩ : b.phase = .expectTree ∧ phase = .expectNode := by
    revert hphase
    cases b.phase <;> simp [BuilderPhase.after?, eq_comm]
  exact ⟨hexpect, hsize, rfl⟩

theorem endTree_leads : endTree.Leads b fun _ after => b.phase = .expectNode ∧
    0 < b.draft.tree.nodeCount ∧ ∃ tree, b.draft.finish = .ok tree ∧
      after = { b with trees := b.trees.push tree, draft := .empty, phase := .expectTree } := by
  rw [endTree]
  refine enter_leads fun phase hphase => .get_bind (.require_bind fun hpos => ?_)
  refine .lift_bind fun tree hfinish => .of_eq rfl ?_
  obtain ⟨hexpect, rfl⟩ : b.phase = .expectNode ∧ phase = .expectTree := by
    revert hphase
    cases b.phase <;> simp [BuilderPhase.after?, eq_comm]
  exact ⟨hexpect, hpos, tree, hfinish, rfl⟩

theorem startNode_leads (key : Int32) : (startNode key).Leads b fun _ after =>
    b.phase = .expectNode ∧ 0 ≤ key ∧ key ∉ b.draft.keys ∧ b.draft.tree.Columnar ∧
      b.draft.tree.numNodes < Int32.maxValue ∧ after = { b with
        draft.tree := b.draft.tree.pushNode
        draft.keys := b.draft.keys.push key
        draft.childKeys := b.draft.childKeys.push none
        phase := .expectDetail } := by
  rw [startNode]
  refine enter_leads fun phase hphase => ?_
  obtain ⟨hexpect, rfl⟩ : b.phase = .expectNode ∧ phase = .expectDetail := by
    revert hphase
    cases b.phase <;> simp [BuilderPhase.after?, eq_comm]
  refine .get_bind (.require_bind fun hkey => .require_bind fun hnew => ?_)
  refine .bind ((editTree_leads (Tree.allocNode_leads b.draft.tree)).mono ?_)
  rintro _ _ ⟨tree, ⟨hcolumnar, hlt, -, rfl⟩, rfl⟩
  exact ⟨(), _, rfl, hexpect, hkey, hnew, hcolumnar, hlt, rfl⟩

theorem endNode_leads : endNode.Leads b fun _ after =>
    b.phase = .nodeComplete ∧ after = { b with phase := .expectNode } := by
  rw [endNode]
  refine enter_leads fun phase hphase => .of_eq rfl ?_
  obtain ⟨hcomplete, rfl⟩ : b.phase = .nodeComplete ∧ phase = .expectNode := by
    revert hphase
    cases b.phase <;> simp [BuilderPhase.after?, eq_comm]
  exact ⟨hcomplete, rfl⟩

variable {b} in
private theorem checkFeature_eq_ok {feature : Int32} {checked : UInt32}
    (h : b.checkFeature feature = .ok checked) : feature.toUInt32 = checked := by
  rw [checkFeature, then_eq_ok] at h
  exact Except.ok.inj h.2

section CurrentNode

/-! The calls on the current node change its tree by one edit. Wherever that edit leads, so does the
call. -/

variable {goal : Unit → Tree b.precision.Word b.precision.Word → Prop}

theorem numericalTest_leads (feature : Int32) (threshold : Double) (defaultLeft : Bool)
    (comparison : Comparison) (left right : Int32)
    (hedit : b.checkFeature feature = .ok feature.toUInt32 → comparison ≠ .never →
      (Tree.setNumericalSplit b.draft.current feature.toUInt32 (Numeric.cast threshold) defaultLeft
        comparison).Leads b.draft.tree goal) :
    (numericalTest feature threshold defaultLeft comparison left right).Leads b fun _ after =>
      b.phase = .expectDetail ∧ b.checkFeature feature = .ok feature.toUInt32 ∧
      b.draft.checkChildKeys left right = .ok () ∧ comparison ≠ .never ∧
      ∃ tree, goal () tree ∧ after = { b with
        draft := { b.draft.setChildKeys left right with tree := tree }
        phase := .nodeComplete } := by
  rw [numericalTest]
  refine enter_leads fun phase hphase => ?_
  obtain ⟨hdetail, rfl⟩ := phase_of_detail (by simp) hphase
  refine .get_bind (.lift_bind fun checked hfeature => .lift_bind fun _ hkeys => ?_)
  obtain rfl := checkFeature_eq_ok hfeature
  refine .require_bind fun hne => .bind ((editCurrent_leads (hedit hfeature hne)).mono ?_)
  rintro _ _ ⟨tree, htree, rfl⟩
  exact ⟨(), _, rfl, hdetail, hfeature, hkeys, hne, tree, htree, rfl⟩

theorem categoricalTest_leads (feature : Int32) (defaultLeft : Bool) (categories : List UInt32)
    (matchGoesRight : Bool) (left right : Int32)
    (hedit : b.checkFeature feature = .ok feature.toUInt32 →
      (Tree.setCategoricalSplit b.draft.current feature.toUInt32 defaultLeft categories
        matchGoesRight).Leads b.draft.tree goal) :
    (categoricalTest feature defaultLeft categories matchGoesRight left right).Leads b
      fun _ after => b.phase = .expectDetail ∧ b.checkFeature feature = .ok feature.toUInt32 ∧
      b.draft.checkChildKeys left right = .ok () ∧
      ∃ tree, goal () tree ∧ after = { b with
        draft := { b.draft.setChildKeys left right with tree := tree }
        phase := .nodeComplete } := by
  rw [categoricalTest]
  refine enter_leads fun phase hphase => ?_
  obtain ⟨hdetail, rfl⟩ := phase_of_detail (by simp) hphase
  refine .get_bind (.lift_bind fun checked hfeature => .lift_bind fun _ hkeys => ?_)
  obtain rfl := checkFeature_eq_ok hfeature
  refine .bind ((editCurrent_leads (hedit hfeature)).mono ?_)
  rintro _ _ ⟨tree, htree, rfl⟩
  exact ⟨(), _, rfl, hdetail, hfeature, hkeys, tree, htree, rfl⟩

theorem leafScalar_leads (value : Double)
    (hedit : b.leafShape = .scalar →
      (Tree.setLeaf b.draft.current (Numeric.cast value)).Leads b.draft.tree goal) :
    (leafScalar value).Leads b fun _ after => b.phase = .expectDetail ∧ b.leafShape = .scalar ∧
      ∃ tree, goal () tree ∧ after = { b with draft.tree := tree, phase := .nodeComplete } := by
  rw [leafScalar]
  refine enter_leads fun phase hphase => ?_
  obtain ⟨hdetail, rfl⟩ := phase_of_detail (by simp) hphase
  refine .get_bind (.require_bind fun hshape => ?_)
  refine .bind ((editCurrent_leads (hedit hshape)).mono ?_)
  rintro _ _ ⟨tree, htree, rfl⟩
  exact ⟨(), _, rfl, hdetail, hshape, tree, htree, rfl⟩

theorem leafVector_leads {α : Type} [Numeric α] (values : Array α)
    (hedit : values.size = b.leafShape.size →
      (Tree.setLeafVector b.draft.current (values.map Numeric.cast)).Leads b.draft.tree goal) :
    (leafVector values).Leads b fun _ after => b.phase = .expectDetail ∧
      Numeric.valueType α = b.precision.valueType ∧ values.size = b.leafShape.size ∧
      ∃ tree, goal () tree ∧ after = { b with draft.tree := tree, phase := .nodeComplete } := by
  rw [leafVector]
  refine enter_leads fun phase hphase => ?_
  obtain ⟨hdetail, rfl⟩ := phase_of_detail (by simp) hphase
  refine .get_bind (.require_bind fun htype => .require_bind fun hsize => ?_)
  refine .bind ((editCurrent_leads (hedit hsize)).mono ?_)
  rintro _ _ ⟨tree, htree, rfl⟩
  exact ⟨(), _, rfl, hdetail, htype, hsize, tree, htree, rfl⟩

theorem statistic_leads {call : BuilderCall}
    (hcall : call = .gain ∨ call = .dataCount ∨ call = .sumHess)
    {edit : (p : Precision) → Nat → Edit (Tree p.Word p.Word) Unit}
    (hedit : (edit b.precision b.draft.current).Leads b.draft.tree goal) :
    (do
      let phase ← enter call
      editCurrent edit
      proceed phase : Edit Builder Unit).Leads b fun _ after =>
        (b.phase = .expectDetail ∨ b.phase = .nodeComplete) ∧
        ∃ tree, goal () tree ∧ after = { b with draft.tree := tree } := by
  refine enter_leads fun phase hphase => ?_
  cases phase_of_statistic hcall hphase
  have hopen : b.phase = .expectDetail ∨ b.phase = .nodeComplete := by
    revert hphase
    rcases hcall with rfl | rfl | rfl <;> cases b.phase <;> simp [BuilderPhase.after?]
  refine .bind ((editCurrent_leads hedit).mono ?_)
  rintro _ _ ⟨tree, htree, rfl⟩
  exact ⟨(), _, rfl, hopen, tree, htree, rfl⟩

theorem gain_leads (amount : Double)
    (hedit : (Tree.setGain b.draft.current amount).Leads b.draft.tree goal) :
    (gain amount).Leads b fun _ after => (b.phase = .expectDetail ∨ b.phase = .nodeComplete) ∧
      ∃ tree, goal () tree ∧ after = { b with draft.tree := tree } :=
  statistic_leads b (by simp) hedit

theorem dataCount_leads (count : UInt64)
    (hedit : (Tree.setDataCount b.draft.current count).Leads b.draft.tree goal) :
    (dataCount count).Leads b fun _ after => (b.phase = .expectDetail ∨ b.phase = .nodeComplete) ∧
      ∃ tree, goal () tree ∧ after = { b with draft.tree := tree } :=
  statistic_leads b (by simp) hedit

theorem sumHess_leads (sum : Double)
    (hedit : (Tree.setSumHess b.draft.current sum).Leads b.draft.tree goal) :
    (sumHess sum).Leads b fun _ after => (b.phase = .expectDetail ∨ b.phase = .nodeComplete) ∧
      ∃ tree, goal () tree ∧ after = { b with draft.tree := tree } :=
  statistic_leads b (by simp) hedit

end CurrentNode

theorem commit_leads : (commit : Edit Builder Model).Leads b fun model after =>
    b.phase = .expectTree ∧ b.trees.size = b.numTree.toNat ∧
      model = ⟨⟨b.precision, false⟩, b.trees, b.info, .current, 0⟩ ∧
        after = { b with trees := #[], phase := .modelComplete } := by
  rw [commit]
  refine enter_leads fun phase hphase => .get_bind (.require_bind fun hsize => .of_eq rfl ?_)
  obtain ⟨hexpect, rfl⟩ : b.phase = .expectTree ∧ phase = .modelComplete := by
    revert hphase
    cases b.phase <;> simp [BuilderPhase.after?, eq_comm]
  exact ⟨hexpect, hsize, rfl, rfl⟩

end Arboretum.Builder

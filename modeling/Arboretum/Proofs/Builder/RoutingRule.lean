import Arboretum.Builder.Descriptors
import Arboretum.Proofs.Predict.Layout
import Mathlib.Algebra.Group.Int.Defs
import Mathlib.Algebra.Group.Nat.Defs

/-!
The rule for what a tree may feed, which is checked twice: on the descriptors, with signed
comparisons of an id and a bound, and before a prediction, with unsigned ones. A bound that takes 32
bits is negative where it is read as a signed number, and then the first check refuses what the
second one accepts. Below that they agree.
-/

namespace Arboretum

private theorem toInt_toInt32 (bound : UInt32) : bound.toInt32.toInt =
    if bound.toNat < 2 ^ 31 then (bound.toNat : Int) else bound.toNat - 2 ^ 32 := by
  have hlt := bound.toNat_lt
  rw [Int32.toInt, UInt32.toBitVec_toInt32, BitVec.toInt_eq_toNat_cond, UInt32.toNat_toBitVec]
  split <;> split <;> omega

/-- Read as signed numbers, an id is found to stand for all or to be below a bound just when it is
and the bound is no negative number. -/
theorem lt_toInt32_iff {id : Int32} {bound : UInt32} : -1 ≤ id ∧ id < bound.toInt32 ↔
    bound.toNat < 2 ^ 31 ∧ (id = allSlots ∨ 0 ≤ id ∧ id.toUInt32 < bound) := by
  have hall : id = allSlots ↔ id.toInt = -1 := Int32.toInt_inj.symm
  have hminus : (-1 : Int32).toInt = -1 := by decide
  have hunsigned : 0 ≤ id ∧ id.toUInt32 < bound ↔
      0 ≤ id.toInt ∧ id.toInt.toNat < bound.toNat := by
    rw [Int32.le_iff_toInt_le, Int32.toInt_zero]
    refine and_congr_right fun hpos => ?_
    rw [UInt32.lt_iff_toNat_lt, Int32.toNat_toUInt32_of_le (Int32.le_iff_toInt_le.mpr hpos)]
    rfl
  have hlt := bound.toNat_lt
  rw [hunsigned, hall, Int32.lt_iff_toInt_lt, Int32.le_iff_toInt_le, toInt_toInt32, hminus]
  split <;> omega

namespace Metadata

/-- How many classes a tree with the given target may choose from. -/
def classBound (metadata : Metadata) (target : Int32) : UInt32 :=
  if target = allSlots then metadata.maxNumClass
  else metadata.numClass.getD target.toInt.toNat 0

/-- Metadata of a model with the output layout that descriptors declare. -/
structure SharesLayout (metadata : Metadata) (info : ModelInfo) : Prop where
  numTarget : info.numTarget = metadata.numTarget
  numClass : info.numClass = metadata.numClass
  leafShape : Model.leafShape info = .ok metadata.leafShape

/-- No count of targets or classes takes all of its 32 bits. -/
structure Moderate (metadata : Metadata) : Prop where
  numTarget : metadata.numTarget.toNat < 2 ^ 31
  numClass : ∀ count ∈ metadata.numClass, count.toNat < 2 ^ 31

private theorem Moderate.classBound_lt {metadata : Metadata} (h : metadata.Moderate)
    (target : Int32) :
    (metadata.classBound target).toNat < 2 ^ 31 := by
  rw [classBound, maxNumClass, largestClassCount]
  split
  · cases hmax : metadata.numClass.toList.max? with
    | none => decide
    | some count =>
      exact h.numClass count (Array.mem_toList_iff.mp (List.max?_eq_some_iff.mp hmax).1)
  · rw [Array.getD_eq_getD_getElem?]
    cases hcount : metadata.numClass[target.toInt.toNat]? with
    | none => decide
    | some count => exact h.numClass count (Array.mem_of_getElem? hcount)

end Metadata

namespace TreeRouting

variable {metadata : Metadata} {info : ModelInfo} {tree : Nat} {target class_ : Int32}

private theorem routed_iff (hinfo : metadata.SharesLayout info) :
    Routed info metadata.leafShape target class_ ↔
      (target = allSlots ∨ 0 ≤ target ∧ target.toUInt32 < metadata.numTarget) ∧
      (class_ = allSlots ∨ 0 ≤ class_ ∧ class_.toUInt32 < metadata.classBound target) ∧
      LeafShape.ofRouting target class_ metadata.numTarget metadata.maxNumClass =
        metadata.leafShape := by
  rw [Metadata.classBound, Metadata.maxNumClass, ← hinfo.numTarget, ← hinfo.numClass]
  constructor
  · rintro ⟨htarget, hclass, hshape⟩
    exact ⟨or_iff_not_imp_left.mpr htarget, hclass, hshape⟩
  · rintro ⟨htarget, hclass, hshape⟩
    exact ⟨or_iff_not_imp_left.mp htarget, hclass, hshape⟩

/-- The check of the descriptors asks for the same target, class and shape as the one before a
prediction, and for counts that stay what they are as signed numbers. -/
theorem checkTree_eq_ok (hinfo : metadata.SharesLayout info) :
    checkTree metadata tree target class_ = .ok () ↔
      (metadata.numTarget.toNat < 2 ^ 31 ∧ (metadata.classBound target).toNat < 2 ^ 31) ∧
        Routed info metadata.leafShape target class_ := by
  have hbound : target = allSlots ∨ 0 ≤ target →
      (if 0 ≤ target then metadata.numClass.getD target.toInt.toNat 0 else metadata.maxNumClass) =
        metadata.classBound target := by
    rw [Metadata.classBound]
    rintro (rfl | hpos)
    · rfl
    · have hne : target ≠ allSlots := by
        rintro rfl
        exact absurd hpos (by decide)
      rw [if_pos hpos, if_neg hne]
  simp only [checkTree, then_eq_ok, require_eq_ok, lt_toInt32_iff, routed_iff hinfo]
  constructor
  · rintro ⟨⟨hnum, htarget⟩, ⟨hcount, hclass⟩, hshape⟩
    rw [hbound (htarget.imp_right And.left)] at hcount hclass
    exact ⟨⟨hnum, hcount⟩, htarget, hclass, hshape⟩
  · rintro ⟨⟨hnum, hcount⟩, htarget, hclass, hshape⟩
    rw [hbound (htarget.imp_right And.left)]
    exact ⟨⟨hnum, htarget⟩, ⟨hcount, hclass⟩, hshape⟩

theorem validateAgainst_eq_ok {routing : TreeRouting} :
    routing.validateAgainst metadata = .ok () ↔ ∀ (tree : Nat) (target class_ : Int32),
      routing.targetId[tree]? = some target → routing.classId[tree]? = some class_ →
        checkTree metadata tree target class_ = .ok () :=
  forM_pairs_eq_ok

/-- The loop over the routing of all trees in the check before a prediction, for a model with the
given metadata and shape of leaf outputs. -/
def checkRoutings (routing : TreeRouting) (info : ModelInfo) (shape : LeafShape) : Result Unit :=
  (routing.targetId.toList.zip routing.classId.toList).zipIdx.forM fun ((target, class_), tree) =>
    Model.checkRouting info tree shape target class_

/-- Descriptors are accepted where the check before a prediction accepts them too and no count that
a tree is compared with takes all of its 32 bits; so the two agree on all moderate counts. -/
theorem validateAgainst_iff_checkRoutings (routing : TreeRouting)
    (hinfo : metadata.SharesLayout info) :
    (routing.validateAgainst metadata = .ok () ↔
      routing.checkRoutings info metadata.leafShape = .ok () ∧
        ∀ (tree : Nat) (target class_ : Int32), routing.targetId[tree]? = some target →
          routing.classId[tree]? = some class_ →
            metadata.numTarget.toNat < 2 ^ 31 ∧ (metadata.classBound target).toNat < 2 ^ 31) ∧
    (metadata.Moderate → (routing.validateAgainst metadata = .ok () ↔
      routing.checkRoutings info metadata.leafShape = .ok ())) := by
  have hexact : routing.validateAgainst metadata = .ok () ↔
      routing.checkRoutings info metadata.leafShape = .ok () ∧
        ∀ (tree : Nat) (target class_ : Int32), routing.targetId[tree]? = some target →
          routing.classId[tree]? = some class_ →
            metadata.numTarget.toNat < 2 ^ 31 ∧ (metadata.classBound target).toNat < 2 ^ 31 := by
    simp only [validateAgainst_eq_ok, checkTree_eq_ok hinfo, checkRoutings, forM_pairs_eq_ok,
      Model.checkRouting_eq_ok]
    constructor
    · intro h
      exact ⟨fun tree target class_ ht hc => (h tree target class_ ht hc).2,
        fun tree target class_ ht hc => (h tree target class_ ht hc).1⟩
    · rintro ⟨hrouted, hcounts⟩ tree target class_ ht hc
      exact ⟨hcounts tree target class_ ht hc, hrouted tree target class_ ht hc⟩
  refine ⟨hexact, fun hmoderate => hexact.trans (and_iff_left ?_)⟩
  exact fun _ target _ _ _ => ⟨hmoderate.numTarget, hmoderate.classBound_lt target⟩

def oneTarget (count : UInt32) : Metadata where
  numFeature := 1
  task := .multiClassification
  averageTreeOutput := false
  numTarget := 1
  numClass := #[count]
  leafShape := .scalar

def oneTargetInfo (count : UInt32) : ModelInfo := { ModelInfo.initial with numClass := #[count] }

private theorem oneTarget_sharesLayout (count : UInt32) :
    (oneTarget count).SharesLayout (oneTargetInfo count) :=
  ⟨rfl, rfl, rfl⟩

def oneTree (class_ : Int32) : TreeRouting := ⟨1, #[0], #[class_]⟩

/-- The last class is found by both checks when there are as many classes as ids. -/
theorem validateAgainst_iff_checkRoutings_lastClass :
    (oneTarget 0x7fffffff).Moderate ∧
      (oneTree 0x7ffffffe).validateAgainst (oneTarget 0x7fffffff) = .ok () ∧
      (oneTree 0x7ffffffe).checkRoutings (oneTargetInfo 0x7fffffff) .scalar = .ok () := by
  have hmoderate : (oneTarget 0x7fffffff).Moderate :=
    ⟨by decide, by simp [oneTarget]⟩
  have haccepted : (oneTree 0x7ffffffe).validateAgainst (oneTarget 0x7fffffff) = .ok () := by
    decide +kernel
  exact ⟨hmoderate, haccepted, ((validateAgainst_iff_checkRoutings (oneTree 0x7ffffffe)
    (oneTarget_sharesLayout 0x7fffffff)).2 hmoderate).mp haccepted⟩

/-- With one class more there is not even a first class for the descriptors, as this count is the
lowest of all signed numbers. -/
theorem validateAgainst_firstClass :
    (oneTarget 0x80000000).validate = .ok () ∧ (oneTree 0).validate = .ok () ∧
      (oneTarget 0x80000000).SharesLayout (oneTargetInfo 0x80000000) ∧
      (oneTree 0).validateAgainst (oneTarget 0x80000000) =
        .error (.config (.classOutOfRange 0 0 0x80000000)) ∧
      (oneTree 0).checkRoutings (oneTargetInfo 0x80000000) .scalar = .ok () :=
  ⟨by decide +kernel, by decide +kernel, oneTarget_sharesLayout _, by decide +kernel,
    by decide +kernel⟩

end TreeRouting

end Arboretum

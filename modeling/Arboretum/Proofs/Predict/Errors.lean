import Arboretum.Predict.Basic
import Arboretum.Proofs.Result

/-!
The errors of the check before a prediction. Each of them is about the model or the request; none
of them is the failure of a look-up, which is what a computation that left its bounds would report.
-/

namespace Arboretum

variable {α β : Type}

/-- A result that is not the failure of a look-up. -/
def InBounds (r : Result α) : Prop := r ≠ .error (.structural .accessOutOfRange)

namespace InBounds

theorem ok (a : α) : InBounds (.ok a) := by
  intro h
  cases h

theorem require {p : Prop} {_ : Decidable p} {e : Error} (h : e ≠ .structural .accessOutOfRange) :
    InBounds (require p e) := by
  unfold InBounds Arboretum.require
  split
  · exact ok ()
  · intro he
    cases he
    exact h rfl

theorem bind_of_ok {x : Result α} {next : α → Result β} (hx : InBounds x)
    (hnext : ∀ a, x = .ok a → InBounds (next a)) : InBounds (x >>= next) := by
  cases x with
  | error e =>
    intro h
    cases h
    exact hx rfl
  | ok a => exact hnext a rfl

theorem bind {x : Result α} {next : α → Result β} (hx : InBounds x)
    (hnext : ∀ a, InBounds (next a)) : InBounds (x >>= next) :=
  hx.bind_of_ok fun a _ => hnext a

theorem forM {l : List α} {f : α → Result Unit} (h : ∀ a, InBounds (f a)) :
    InBounds (l.forM f) := by
  induction l with
  | nil => exact ok ()
  | cons a l ih => exact bind (h a) fun _ => ih

theorem ite {p : Prop} [Decidable p] {x y : Result α} (hx : InBounds x) (hy : InBounds y) :
    InBounds (if p then x else y) := by
  split
  · exact hx
  · exact hy

end InBounds

namespace Tree

variable {T L : Type} (tree : Tree T L)

private theorem checkColumnSizes_inBounds : InBounds tree.checkColumnSizes := by
  unfold checkColumnSizes
  split
  · intro h
    cases h
  · exact .ok ()

private theorem checkLocal_inBounds (nid : Nat) : InBounds (tree.checkLocal nid) := by
  rw [checkLocal, checkRange]
  refine .bind (.require (by simp)) fun _ => .bind (.require (by simp)) fun _ => ?_
  exact .bind (.require (by simp)) fun _ => .bind (.require (by simp)) fun _ =>
    .require (by simp)

private theorem mark_inBounds (steps : Nat) (stack : List Nat) (visited : Array Bool) :
    InBounds (tree.mark steps stack visited) := by
  induction steps generalizing stack visited with
  | zero => cases stack <;> exact .ok visited
  | succ steps ih =>
    cases stack with
    | nil => exact .ok visited
    | cons nid stack =>
      rw [mark]
      refine .ite ?_ (.ite (ih _ _) (ih _ _))
      intro h
      cases h

private theorem validate_inBounds : InBounds tree.validate := by
  rw [validate]
  refine .bind (.require (by simp)) fun _ => .bind tree.checkColumnSizes_inBounds fun _ =>
    .bind (.forM tree.checkLocal_inBounds) fun _ => .ite ?_ (.ok ())
  rw [checkSingleRooted]
  refine .bind (tree.mark_inBounds _ _ _) fun visited => ?_
  split
  · intro h
    cases h
  · exact .ok ()

end Tree

namespace Model

private theorem checkRouting_inBounds (info : ModelInfo) (tree : Nat) (shape : LeafShape)
    (target class_ : Int32) : InBounds (checkRouting info tree shape target class_) := by
  have hclass : ∀ bound : UInt32, InBounds (do
      require (class_ = allSlots ∨ (0 ≤ class_ ∧ class_.toUInt32 < bound))
        (.structural (.invalidClass tree class_.toInt))
      let needed := LeafShape.ofRouting target class_ info.numTarget
        (largestClassCount info.numClass)
      require (needed = shape)
        (.structural (.leafShapeMismatch tree target.toInt class_.toInt needed shape))) :=
    fun bound => .bind (.require (by simp)) fun _ => .require (by simp)
  rw [checkRouting]
  exact .ite (.bind (.require (by simp)) fun _ => hclass _) (hclass _)

private theorem checkNode_inBounds {T L : Type} (info : ModelInfo) (kind : PredictKind)
    (shape : LeafShape) (tree nid : Nat) (node : Node T L) :
    InBounds (checkNode info kind shape tree nid node) := by
  rw [checkNode]
  refine .ite (.ite (.bind (.require (by simp)) fun _ => .require (by simp)) (.ok ())) ?_
  exact .bind (.require (by simp)) fun _ => .require (by simp)

private theorem checkTree_inBounds {T L : Type} (info : ModelInfo) (kind : PredictKind)
    (shape : LeafShape) (tree : Tree T L) (index : Nat) :
    InBounds (checkTree info kind shape tree index) := by
  rw [checkTree]
  refine .bind (.require (by simp)) fun _ => .bind tree.validate_inBounds fun _ => ?_
  exact .forM fun entry => checkNode_inBounds info kind shape index entry.2 entry.1

private theorem leafShape_inBounds (info : ModelInfo) : InBounds (leafShape info) := by
  unfold leafShape
  split
  · exact .ok _
  · intro h
    cases h

theorem check_inBounds (model : Model) (kind : PredictKind) : InBounds (model.check kind) := by
  have htrees : ∀ shape, InBounds (model.trees.toList.zipIdx.forM fun entry =>
      checkTree model.info kind shape entry.1 entry.2) :=
    fun shape => .forM fun entry => checkTree_inBounds model.info kind shape entry.1 entry.2
  rw [check]
  refine .bind (.require (by simp)) fun _ => .bind (.require (by simp)) fun _ =>
    .bind (leafShape_inBounds _) fun shape => .bind (.require (by simp)) fun _ => ?_
  refine .ite (.bind (.require (by simp)) fun _ => .bind (.forM fun entry => ?_) fun _ =>
    htrees shape) (htrees shape)
  exact checkRouting_inBounds model.info entry.2 shape entry.1.1 entry.1.2

end Model

theorem Configuration.resolveThreads_inBounds (config : Configuration) (cores : Nat) :
    InBounds (config.resolveThreads cores) := by
  rw [resolveThreads, validate, Arboretum.resolveThreads]
  refine .bind (.require (by simp)) fun _ => .ite (.ok _) (.ite (.ok _) (.ite (.ok _) ?_))
  intro h
  cases h

theorem Model.postprocessorFor_unsummed (model : Model) {kind : PredictKind}
    (hsums : kind.sums = false) : model.postprocessorFor kind = .ok none := by
  cases kind with
  | processed | raw => cases hsums
  | leafId | perTree => rfl

theorem Model.postprocessorFor_inBounds (model : Model) (kind : PredictKind) :
    InBounds (model.postprocessorFor kind) := by
  cases kind with
  | processed =>
    refine .bind (.bind ?_ fun _ => .ok _) fun _ => .ok _
    unfold PostprocessorKind.ofName
    split
    · exact .ok _
    · intro h
      cases h
  | raw | leafId | perTree => exact .ok none

end Arboretum

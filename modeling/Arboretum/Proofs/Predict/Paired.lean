import Arboretum.Proofs.Predict.Outcome
import Arboretum.Proofs.Tree.Walk
import Mathlib.Data.List.Forall2

/-!
Predictions with two models that have the same metadata and trees in pairs. Whatever it is that
relates the trees of a pair, as long as each row reaches leaves with one output in both of them, all
that a prediction computes is the same for both models.
-/

namespace Arboretum

open Predict

variable {T L α γ : Type}

section Lists

variable {β : Type} {R : β → β → Prop} {xs ys : List β}

private theorem foldlM_zipIdx_congr {f : γ → β × Nat → Option γ} (h : List.Forall₂ R xs ys)
    (hf : ∀ x y, R x y → ∀ i acc, f acc (y, i) = f acc (x, i)) (k : Nat) (acc : γ) :
    (ys.zipIdx k).foldlM f acc = (xs.zipIdx k).foldlM f acc := by
  induction h generalizing k acc with
  | nil => rfl
  | cons hxy _ ih =>
    simp only [List.zipIdx_cons, List.foldlM_cons, hf _ _ hxy, ih]

theorem forM_zipIdx_congr {f : β × Nat → Result PUnit} (h : List.Forall₂ R xs ys)
    (hf : ∀ x y, R x y → ∀ i, f (y, i) = f (x, i)) (k : Nat) :
    (ys.zipIdx k).forM f = (xs.zipIdx k).forM f := by
  induction h generalizing k with
  | nil => rfl
  | cons hxy _ ih =>
    simp only [List.forM_eq_forM, List.zipIdx_cons, List.forM_cons, hf _ _ hxy] at ih ⊢
    rw [ih]

private theorem mapM_forall₂ {f : β → Option γ} (h : List.Forall₂ R xs ys)
    (hf : ∀ x y, R x y → f y = f x) : ys.mapM f = xs.mapM f := by
  induction h with
  | nil => rfl
  | cons hxy _ ih => rw [List.mapM_cons, List.mapM_cons, hf _ _ hxy, ih]

theorem exists_partner {ι κ : Type _} {R : ι → κ → Prop} {xs : List ι} {ys : List κ}
    (h : List.Forall₂ R xs ys) {i : Nat} {y : κ} (hy : ys[i]? = some y) :
    ∃ x, xs[i]? = some x ∧ R x y := by
  obtain ⟨hlength, hpairs⟩ := List.forall₂_iff_get.mp h
  obtain ⟨hlt, rfl⟩ := List.getElem?_eq_some_iff.mp hy
  exact ⟨_, List.getElem?_eq_getElem (hlength ▸ hlt), hpairs i (hlength ▸ hlt) hlt⟩

end Lists

namespace Node.SameOutput

variable {node shown : Node T L}

theorem hasLeafVector_eq (h : node.SameOutput shown) :
    shown.hasLeafVector = node.hasLeafVector := by
  rw [hasLeafVector, hasLeafVector, h.leafVector]

theorem addOutput?_eq [Numeric L] [Score α] (h : node.SameOutput shown) (layout : ScoreLayout)
    (target class_ : Int32) (scores : Array α) :
    addOutput? layout target class_ shown scores = addOutput? layout target class_ node scores := by
  rw [addOutput?, addOutput?, h.hasLeafVector_eq]
  cases hvector : node.hasLeafVector with
  | true => simp only [if_true, h.leafVector]
  | false => simp only [Bool.false_eq_true, if_false, h.leafValue hvector]

private theorem outputs_eq (h : node.SameOutput shown) :
    (if shown.hasLeafVector = true then shown.leafVector else #[shown.leafValue]) =
      if node.hasLeafVector = true then node.leafVector else #[node.leafValue] := by
  rw [h.hasLeafVector_eq]
  cases hvector : node.hasLeafVector with
  | true => exact h.leafVector
  | false => simp only [Bool.false_eq_true, if_false, h.leafValue hvector]

end Node.SameOutput

namespace Tree

/-- A row reaches leaves with one output in both trees, or none in either. -/
def SameReached [Numeric T] [Score α] (row : Array α) (tree other : Tree T L) : Prop :=
  tree.leafOf? row = none ∧ other.leafOf? row = none ∨
    ∃ leaf leaf' node shown, tree.leafOf? row = some leaf ∧ tree.node? leaf = some node ∧
      other.leafOf? row = some leaf' ∧ other.node? leaf' = some shown ∧ node.SameOutput shown

namespace SameReached

variable [Numeric T] [Numeric L] [Score α] {row : Array α} {tree other : Tree T L}

private theorem addTree?_eq (h : SameReached row tree other) (layout : ScoreLayout)
    (info : ModelInfo) (scores : Array α) (index : Nat) :
    addTree? layout info row scores other index = addTree? layout info row scores tree index := by
  rw [addTree?, addTree?]
  rcases h with ⟨hleaf, hleaf'⟩ | ⟨leaf, leaf', node, shown, hleaf, hnode, hleaf', hshown, hsame⟩
  · simp only [hleaf, hleaf', Option.bind_eq_bind, Option.bind_none]
  · simp only [hleaf, hleaf', Option.bind_eq_bind, Option.bind_some, hnode, hshown,
      hsame.addOutput?_eq]

private theorem treeOutput?_eq (h : SameReached row tree other) (leafSize : Nat) :
    treeOutput? leafSize row other = treeOutput? leafSize row tree := by
  rw [treeOutput?, treeOutput?]
  rcases h with ⟨hleaf, hleaf'⟩ | ⟨leaf, leaf', node, shown, hleaf, hnode, hleaf', hshown, hsame⟩
  · simp only [hleaf, hleaf', Option.bind_eq_bind, Option.bind_none]
  · simp only [hleaf, hleaf', Option.bind_eq_bind, Option.bind_some, hnode, hshown,
      hsame.outputs_eq]

end SameReached

end Tree

/-- Two models of one pairing with the same metadata and trees that are related in pairs. -/
inductive Model.Paired (R : ∀ {T L : Type}, Tree T L → Tree T L → Prop) : Model → Model → Prop where
  | intro {pairing : Pairing} {trees others : Array (Tree pairing.Threshold pairing.Leaf)}
    {info : ModelInfo} {version version' : FormatVersion} {fields fields' : Int32}
    (h : List.Forall₂ R trees.toList others.toList) :
    Model.Paired R ⟨pairing, trees, info, version, fields⟩
      ⟨pairing, others, info, version', fields'⟩

namespace Model.Paired

variable {R : ∀ {T L : Type}, Tree T L → Tree T L → Prop} {model other : Model}

theorem info_eq (h : model.Paired R other) : other.info = model.info := by
  obtain ⟨h⟩ := h
  rfl

theorem leafType_eq (h : model.Paired R other) :
    other.pairing.leafType = model.pairing.leafType := by
  obtain ⟨h⟩ := h
  rfl

theorem numTree_eq (h : model.Paired R other) : other.numTree = model.numTree := by
  obtain ⟨h⟩ := h
  exact h.length_eq.symm

theorem outputSize_eq (h : model.Paired R other) (numRow : Nat) (kind : PredictKind) :
    other.outputSize numRow kind = model.outputSize numRow kind := by
  simp only [outputSize, outputShape, h.info_eq, h.numTree_eq, maxNumClass]

theorem postprocessorFor_eq (h : model.Paired R other) (kind : PredictKind) :
    other.postprocessorFor kind = model.postprocessorFor kind := by
  unfold postprocessorFor
  rw [h.info_eq]

variable [Score α]

/-- The computation for each row is the same if it does not ask for the numbers of leaves, or if
these are the same too. -/
theorem kernel?_eq (h : model.Paired R other) {kind : PredictKind}
    (hreached : ∀ {T L : Type} [Numeric T] {tree other : Tree T L}, R tree other →
      ∀ row : Array α, Tree.SameReached row tree other)
    (hleaf : kind = .leafId → ∀ {T L : Type} [Numeric T] {tree other : Tree T L}, R tree other →
      ∀ row : Array α, other.leafOf? row = tree.leafOf? row) (post : Option Postprocessor) :
    (kernel? other kind post : Option (RowKernel α)) = kernel? model kind post := by
  have hnum := h.numTree_eq
  obtain @⟨pairing, trees, others, info, _, _, _, _, h⟩ := h
  have hscores : ∀ counts, (scoreRow? info others counts post : Array α → _) =
      scoreRow? info trees counts post := by
    intro counts
    funext row
    have hsums : ∀ start, others.toList.zipIdx.foldlM (fun scores (tree, index) =>
          addTree? (.ofInfo info) info row scores tree index) start =
        trees.toList.zipIdx.foldlM (fun scores (tree, index) =>
          addTree? (.ofInfo info) info row scores tree index) start :=
      foldlM_zipIdx_congr h (fun tree other hrel index scores =>
        (hreached hrel row).addTree?_eq _ _ scores index) 0
    simp only [scoreRow?, hsums]
  have houtputs : ∀ size, (outputsRow? size others : Array α → _) = outputsRow? size trees := by
    intro size
    funext row
    rw [outputsRow?, outputsRow?, Array.mapM_eq_mapM_toList, Array.mapM_eq_mapM_toList,
      mapM_forall₂ h fun tree other hrel => (hreached hrel row).treeOutput?_eq size]
  cases kind with
  | processed => simp only [kernel?, hnum, hscores]
  | raw => simp only [kernel?, hnum, hscores]
  | leafId =>
    have hleaves : (leafRow? others : Array α → _) = leafRow? trees := by
      funext row
      rw [leafRow?, leafRow?, Array.mapM_eq_mapM_toList, Array.mapM_eq_mapM_toList,
        mapM_forall₂ h fun tree other hrel => by rw [hleaf rfl hrel row]]
    simp only [kernel?, hnum, hleaves]
  | perTree => simp only [kernel?, hnum, houtputs]

/-- Nothing else of a model is looked at once the prediction is prepared. -/
theorem predictOn_eq (h : model.Paired R other) {machine : Machine} {config : Configuration}
    {input : Array α} {numRow : Nat} {out : Array α}
    (hprepare : other.prepare machine config input numRow out.size =
      model.prepare machine config input numRow out.size) :
    (other.predictOn machine config input numRow).apply out =
      (model.predictOn machine config input numRow).apply out := by
  rw [predictOn, predictOn]
  simp only [Edit.apply_bind, Edit.apply_get, Edit.apply_lift, hprepare, h.info_eq]

end Model.Paired

end Arboretum

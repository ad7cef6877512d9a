import Arboretum.Proofs.Model.Dump
import Arboretum.Proofs.Predict.Paired

/-!
A dump tells models apart. Everything that a prediction looks at is in it, and so are the metadata:
models of one pairing with one dump pass and fail the same checks and give every input the same
answer.
-/

namespace Arboretum

open Predict

variable {T L α : Type}

namespace Node.SeenAs

variable {node other : Node T L}

theorem childFor_eq [Numeric T] [Score α] (h : node.SeenAs other) (htest : node.isLeaf = false)
    (value : α) : other.childFor value = node.childFor value := by
  have hsame := h.test htest
  simp only [childFor, defaultChild, hsame.defaultLeft, hsame.left, hsame.right, hsame.kind]
  by_cases hkind : node.kind = .categoricalTest
  · obtain ⟨hcategories, hmatch⟩ := hsame.categorical hkind
    simp only [hkind, if_true, hcategories, hmatch]
  · obtain ⟨hcomparison, hthreshold⟩ := hsame.numerical hkind
    simp only [hkind, if_false, hcomparison, hthreshold]

private theorem checkNode_eq (h : node.SeenAs other) (info : ModelInfo) (kind : PredictKind)
    (shape : LeafShape) (tree nid : Nat) :
    Model.checkNode info kind shape tree nid other =
      Model.checkNode info kind shape tree nid node := by
  rw [Model.checkNode, Model.checkNode, h.isLeaf]
  cases hleaf : node.isLeaf with
  | true => simp only [if_true, (h.output hleaf).hasLeafVector_eq, (h.output hleaf).leafVector]
  | false =>
    have hsame := h.test hleaf
    simp only [Bool.false_eq_true, if_false, hsame.feature, hsame.kind]
    by_cases hkind : node.kind = .categoricalTest
    · simp only [hkind, true_or]
    · rw [(hsame.numerical hkind).1]

end Node.SeenAs

namespace Tree.SeenAs

variable {tree other : Tree T L}

theorem nodeCount_eq (h : tree.SeenAs other) : other.nodeCount = tree.nodeCount := by
  rw [nodeCount, nodeCount, h.numNodes]

theorem nodes (h : tree.SeenAs other) : List.Forall₂ Node.SeenAs tree.nodes other.nodes := by
  rw [Tree.nodes, Tree.nodes, h.nodeCount_eq]
  exact List.rel_filterMap (R := Eq) (fun nid _ heq => heq ▸ h.node nid) (List.forall₂_refl _)

private theorem checkTree_eq (h : tree.SeenAs other) (hvalid : tree.validate = .ok ())
    (hvalid' : other.validate = .ok ()) (info : ModelInfo) (kind : PredictKind)
    (shape : LeafShape) (index : Nat) :
    Model.checkTree info kind shape other index = Model.checkTree info kind shape tree index := by
  rw [Model.checkTree, Model.checkTree, h.numNodes, hvalid, hvalid']
  have hnodes := forM_zipIdx_congr (f := fun entry =>
    Model.checkNode info kind shape index entry.2 entry.1) h.nodes
    (fun node other hseen nid => hseen.checkNode_eq info kind shape index nid) 0
  rw [hnodes]

variable [Numeric T] [Score α]

theorem leafBelow?_eq (h : tree.SeenAs other) (row : Array α) (steps nid : Nat) :
    other.leafBelow? row steps nid = tree.leafBelow? row steps nid := by
  induction steps generalizing nid with
  | zero =>
    have hnode := h.node nid
    rw [leafBelow?, leafBelow?]
    generalize tree.node? nid = x at hnode ⊢
    generalize other.node? nid = y at hnode ⊢
    cases hnode with
    | none => rfl
    | some hseen => simp only [hseen.isLeaf]
  | succ steps ih =>
    have hnode := h.node nid
    rw [leafBelow?, leafBelow?]
    generalize tree.node? nid = x at hnode ⊢
    generalize other.node? nid = y at hnode ⊢
    cases hnode with
    | none => rfl
    | @some node shown hseen =>
      cases hleaf : node.isLeaf with
      | true => simp only [hseen.isLeaf, hleaf, if_true]
      | false =>
        simp only [hseen.isLeaf, hleaf, Bool.false_eq_true, if_false, (hseen.test hleaf).feature,
          hseen.childFor_eq hleaf, ih]

theorem leafOf?_eq (h : tree.SeenAs other) (row : Array α) :
    other.leafOf? row = tree.leafOf? row := by
  rw [leafOf?, leafOf?, h.nodeCount_eq, h.leafBelow?_eq]

/-- The leaf that a row reaches has one output in both trees. -/
theorem reached (h : tree.SeenAs other) (row : Array α) : SameReached row tree other := by
  have hother := h.leafOf?_eq row
  cases hleaf : tree.leafOf? row with
  | none => exact .inl ⟨hleaf, hother.trans hleaf⟩
  | some leaf =>
    obtain ⟨node, hnode, hisLeaf⟩ := isLeaf_of_leafBelow? hleaf
    have hrel := h.node leaf
    rw [hnode] at hrel
    generalize hshown : other.node? leaf = y at hrel
    cases hrel with
    | some hseen =>
      exact .inr ⟨leaf, leaf, node, _, hleaf, hnode, hother.trans hleaf, hshown,
        hseen.output hisLeaf⟩

end Tree.SeenAs

namespace Model.SeenAs

variable {model other : Model}

theorem paired (h : model.SeenAs other) : model.Paired Tree.SeenAs other := by
  obtain ⟨h⟩ := h
  exact ⟨h⟩

theorem check_eq (h : model.SeenAs other) (hvalid : ∀ tree ∈ model.trees, tree.validate = .ok ())
    (hvalid' : ∀ tree ∈ other.trees, tree.validate = .ok ()) (kind : PredictKind) :
    other.check kind = model.check kind := by
  have hnum := h.paired.numTree_eq
  obtain @⟨pairing, trees, others, info, _, _, _, _, h⟩ := h
  have hpairs := Json.forall₂_with h (fun tree htree => hvalid tree (Array.mem_toList_iff.mp htree))
    fun tree htree => hvalid' tree (Array.mem_toList_iff.mp htree)
  have htrees : ∀ shape, (others.toList.zipIdx.forM fun (tree, index) =>
        checkTree info kind shape tree index) =
      trees.toList.zipIdx.forM fun (tree, index) => checkTree info kind shape tree index :=
    fun shape => forM_zipIdx_congr hpairs (fun tree other ⟨hok, hok', hseen⟩ index =>
      hseen.checkTree_eq hok hok' info kind shape index) 0
  simp only [check, hnum, htrees, maxNumClass]
  rfl

variable [Score α]

/-- Predictions with both models come out the same, whether they end well or not. -/
theorem predictOn_eq (h : model.SeenAs other)
    (hvalid : ∀ tree ∈ model.trees, tree.validate = .ok ())
    (hvalid' : ∀ tree ∈ other.trees, tree.validate = .ok ()) (machine : Machine)
    (config : Configuration) (input : Array α) (numRow : Nat) (out : Array α) :
    (other.predictOn machine config input numRow).apply out =
      (model.predictOn machine config input numRow).apply out := by
  have hkernel : ∀ post, (kernel? other config.kind post : Option (RowKernel α)) =
      kernel? model config.kind post :=
    h.paired.kernel?_eq (fun hseen row => hseen.reached row) fun _ => (·.leafOf?_eq)
  refine h.paired.predictOn_eq ?_
  simp only [prepare, h.paired.info_eq, h.paired.leafType_eq, h.paired.outputSize_eq,
    h.paired.postprocessorFor_eq, h.check_eq hvalid hvalid', hkernel]

end Model.SeenAs

namespace Model

/-- Models of one pairing whose dumps are one text, with finite numbers only, are the same in all
that is dumped and cannot be told apart by predictions. -/
theorem dump_tells_apart {model other : Model} (hpairing : other.pairing = model.pairing)
    (hvalid : ∀ tree ∈ model.trees, tree.validate = .ok ())
    (hvalid' : ∀ tree ∈ other.trees, tree.validate = .ok ())
    (hfinite : model.toJson.Finite) (hfinite' : other.toJson.Finite)
    (hdump : model.dump false = other.dump false) :
    other.info = model.info ∧ other.numTree = model.numTree ∧ model.SeenAs other ∧
      ∀ {α : Type} [Score α] (machine : Machine) (config : Configuration) (input : Array α)
        (numRow : Nat) (out : Array α),
        (other.predictOn machine config input numRow).apply out =
          (model.predictOn machine config input numRow).apply out := by
  have hseen := seenAs_of_toJson hpairing hvalid hvalid' (.of_compactText hfinite hfinite' hdump)
  exact ⟨hseen.paired.info_eq, hseen.paired.numTree_eq, hseen, hseen.predictOn_eq hvalid hvalid'⟩

def lone (tree : Tree Double Double) : Model :=
  { create ⟨.double, false⟩ with
    trees := #[tree]
    info := { ModelInfo.initial with targetId := #[0], classId := #[0] } }

def leafTree : Tree Double Double := ((Tree.setLeaf 0 Score.one).apply Tree.singleLeaf).2

/-- The same leaf where a test was asked for before, which left its threshold behind. -/
def formerTest : Tree Double Double :=
  ((do
    Tree.setNumericalSplit 0 0 Score.one true .less
    Tree.setLeaf 0 Score.one : Edit (Tree Double Double) Unit).apply Tree.singleLeaf).2

/-- What a dump does not show of a leaf does not matter to predictions. -/
theorem dump_tells_apart_formerTest :
    formerTest ≠ leafTree ∧ (lone leafTree).dump false = (lone formerTest).dump false ∧
      (lone leafTree).SeenAs (lone formerTest) ∧
      ∀ (config : Configuration) (input : Array Double) (numRow : Nat) (out : Array Double),
        ((lone formerTest).predict 4 config input numRow).apply out =
          ((lone leafTree).predict 4 config input numRow).apply out := by
  have hvalid : ∀ tree ∈ (lone leafTree).trees, tree.validate = .ok () := by
    intro tree htree
    obtain rfl := List.mem_singleton.mp (Array.mem_toList_iff.mpr htree)
    decide +kernel
  have hvalid' : ∀ tree ∈ (lone formerTest).trees, tree.validate = .ok () := by
    intro tree htree
    obtain rfl := List.mem_singleton.mp (Array.mem_toList_iff.mpr htree)
    decide +kernel
  have hsame : (lone leafTree).toJson = (lone formerTest).toJson := by rfl
  have hdump : (lone leafTree).dump false = (lone formerTest).dump false :=
    congrArg Json.compactText hsame
  have hfinite : (lone leafTree).toJson.Finite := by decide +kernel
  have hpairing : (lone formerTest).pairing = (lone leafTree).pairing := rfl
  obtain ⟨-, -, hseen, hpredict⟩ :=
    dump_tells_apart hpairing hvalid hvalid' hfinite (hsame ▸ hfinite) hdump
  exact ⟨by decide +kernel, hdump, hseen, fun config => hpredict (.ofCores 4) config⟩

end Model

end Arboretum

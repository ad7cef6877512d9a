import Arboretum.Proofs.Predict.Refinement
import Arboretum.Proofs.Tree.Marking

/-!
The check before a prediction is enough. Once it has passed, no computation looks for anything that
is not there, no walk goes on forever, and no block of rows lies outside the buffer; before it has
passed, nothing is written. The check itself asks for sizes and ranges before it relies on them.
-/

namespace Arboretum

open Predict

/-- Everything that the computation for a kind of prediction looks up is there. -/
structure LookupsSucceed (α : Type) [Score α] (model : Model) (kind : PredictKind) : Prop where
  /-- A row with the features of the model ends its walk through any tree at a leaf. -/
  walk : ∀ tree ∈ model.trees, ∀ row : Array α, row.size = model.info.numFeature.toInt.toNat →
    ∃ leaf node, tree.leafOf? row = some leaf ∧ tree.node? leaf = some node ∧ node.isLeaf = true
  /-- Every target has its class count. -/
  targets : (ScoreLayout.ofInfo model.info).numTarget = model.info.numTarget.toNat
  /-- The computation exists, and every block of every answer is filled from end to end. -/
  block : ∀ post, ∃ kernel : RowKernel α, kernel? model kind post = some kernel ∧
    ∀ (input : Array α) (numRow threads : Nat),
      input.size = numRow * model.info.numFeature.toInt.toNat →
      ∀ block ∈ rowBlocks threads (model.outputSize numRow kind) kernel.stride,
        block.offset + block.size ≤ model.outputSize numRow kind ∧
        ∀ entries : Array α, entries.size = block.size →
          ∃ filled, fillRows input model.info.numFeature.toInt.toNat kernel block.firstRow entries =
            .ok filled ∧ filled.size = block.size

/-- What the check of a model looks at is there, part by part. -/
structure Model.ChecksInRange (model : Model) : Prop where
  /-- Behind the check of the class counts, a target that exists has one. -/
  target : model.info.numClass.size = model.info.numTarget.toNat →
    ∀ target : Int32, 0 ≤ target ∧ target.toUInt32 < model.info.numTarget →
      target.toInt.toNat < model.info.numClass.size
  /-- Behind the check of the routing, every tree has its target and its class. -/
  routing : model.info.targetId.size = model.numTree ∧ model.info.classId.size = model.numTree →
    ∀ entry ∈ model.trees.toList.zipIdx,
      entry.2 < model.info.targetId.size ∧ entry.2 < model.info.classId.size
  /-- Behind the check of a tree, every node that it counts is shown under its number. -/
  nodes : ∀ tree ∈ model.trees, tree.validate = .ok () → ∀ nid < tree.nodeCount,
    ∃ node, tree.node? nid = some node ∧ tree.nodes[nid]? = some node

theorem Model.checksInRange (model : Model) : model.ChecksInRange := by
  constructor
  · rintro hsize target ⟨hlow, hhigh⟩
    rw [hsize]
    exact toNat_lt_of_toUInt32_lt hlow hhigh
  · rintro ⟨htargets, hclasses⟩ entry hentry
    have hlt : entry.2 < model.numTree := by
      rw [numTree, ← Array.length_toList]
      exact List.snd_lt_of_mem_zipIdx hentry
    exact ⟨hlt.trans_eq htargets.symm, hlt.trans_eq hclasses.symm⟩
  · intro tree _ hvalid nid hlt
    have hc : tree.Checked := .of_validate hvalid
    obtain ⟨node, hnode⟩ := Tree.exists_node hc.columnar hlt (hc.sound nid hlt)
    exact ⟨node, hnode, (Tree.getElem?_nodes hc nid).trans hnode⟩

variable {α : Type} [Score α]

theorem Model.Usable.lookupsSucceed {model : Model} {kind : PredictKind} {shape : LeafShape}
    (h : model.Usable kind shape) : LookupsSucceed α model kind := by
  refine ⟨fun tree htree row hrow => ?_, h.numTarget_eq, fun post => ?_⟩
  · exact h.exists_leaf_of_mem (Array.mem_toList_iff.mpr htree) hrow
  · obtain ⟨kernel, hkernel, hsize, hfills⟩ := h.exists_kernel (α := α) post
    refine ⟨kernel, hkernel, fun input numRow threads hinput block hblock => ?_⟩
    rw [hsize] at hblock ⊢
    have hstride : kernel.stride ≠ 0 := by
      intro hzero
      rw [hzero, rowBlocks, if_pos (.inl rfl)] at hblock
      cases hblock
    obtain ⟨rows, hoffset, hrows, hlast⟩ := (rowBlocks_tiles threads numRow hstride).block hblock
    constructor
    · rw [hoffset, hrows, ← Nat.add_mul]
      exact Nat.mul_le_mul_right _ hlast
    · intro entries hentries
      rw [hrows] at hentries
      refine ⟨_, (hfills hstride).fillRows_eq hinput hstride hlast hentries, ?_⟩
      rw [List.size_toArray, length_flatMap, List.length_range', hrows]
      intro r hr
      rw [List.mem_range'_1] at hr
      exact (hfills hstride).length_answer hinput (by omega)

/-- A prediction that fails leaves the buffer as it was and never fails for a look-up, the check of
a tree looks at nothing that is not there and ends, and a model that passed the check for a kind
gives the computation of that kind everything it looks up. -/
theorem predictOn_safe (machine : Machine) (model : Model) (config : Configuration)
    (input : Array α) (numRow : Nat) (out : Array α) :
    (∀ e after, (model.predictOn machine config input numRow).apply out = (.error e, after) →
      after = out ∧ e ≠ .structural .accessOutOfRange) ∧
    (∀ tree ∈ model.trees, tree.ChecksInRange) ∧
    ∀ kind, model.check kind = .ok () → LookupsSucceed α model kind := by
  refine ⟨?_, fun tree _ => tree.checksInRange, ?_⟩
  · intro e after h
    cases hprepare : model.prepare machine config input numRow out.size with
    | error e' =>
      rw [Model.predictOn_error hprepare] at h
      cases h
      exact ⟨rfl, fun he => Model.prepare_inBounds out.size (by rw [hprepare, he])⟩
    | ok prepared =>
      obtain ⟨threads, kernel⟩ := prepared
      rcases Model.predictOn_outcome hprepare with ⟨filled, hok, -⟩ | ⟨cause, -, herror⟩
      · rw [hok] at h
        cases h
      · rw [herror] at h
        cases h
        exact ⟨rfl, by simp⟩
  · intro kind hcheck
    obtain ⟨shape, h⟩ := Model.check_eq_ok.mp hcheck
    exact h.lookupsSucceed

theorem predictOn_safe_sample :
    (∀ kind, Model.sample.check kind = .ok ()) ∧
    (∀ kind, LookupsSucceed Double Model.sample kind) ∧
    (∀ kind, ∃ kernel : RowKernel Double, kernel? Model.sample kind none = some kernel ∧
      ∀ block ∈ rowBlocks 2 (Model.sample.outputSize 2 kind) kernel.stride, ∃ filled,
        fillRows #[⟨0⟩, Score.one] 1 kernel block.firstRow (Array.replicate block.size ⟨0⟩) =
          .ok filled) ∧
    (Model.sample.predictOn (.ofCores 4) ⟨.raw, 2⟩ #[⟨0⟩, Score.one] 2).apply
      (Array.replicate 7 (⟨0⟩ : Double)) =
        (.error (.dimension (.output 8 7)), Array.replicate 7 ⟨0⟩) := by
  have hcheck : ∀ kind, Model.sample.check kind = .ok () := by
    intro kind
    cases kind <;> decide +kernel
  have hsafe := predictOn_safe (.ofCores 4) Model.sample ⟨.raw, 2⟩ #[⟨0⟩, Score.one] 2
    (Array.replicate 7 (⟨0⟩ : Double))
  have hlookups := fun kind => hsafe.2.2 kind (hcheck kind)
  refine ⟨hcheck, hlookups, fun kind => ?_, ?_⟩
  · obtain ⟨kernel, hkernel, hblocks⟩ := (hlookups kind).block none
    refine ⟨kernel, hkernel, fun block hblock => ?_⟩
    obtain ⟨filled, hfilled, -⟩ := (hblocks #[⟨0⟩, Score.one] 2 2 rfl block hblock).2
      (Array.replicate block.size ⟨0⟩) Array.size_replicate
    exact ⟨filled, hfilled⟩
  · have hrefused : ((Model.sample.predictOn (.ofCores 4) ⟨.raw, 2⟩ #[⟨0⟩, Score.one] 2).apply
        (Array.replicate 7 (⟨0⟩ : Double))).1 = .error (.dimension (.output 8 7)) := by
      decide +kernel
    have happly := Prod.ext hrefused rfl
    exact happly.trans (congrArg _ (hsafe.1 _ _ happly).1)

end Arboretum

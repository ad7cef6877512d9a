import Arboretum.Predict.Options
import Arboretum.Proofs.Predict.Kernel

/-!
The answer of a prediction that passed the check. Each kind has its computation, every row of the
answer is what the computation returns for that row of the input, and the answer for several
targets holds the same entries in another order.
-/

namespace Arboretum

open Predict

variable {α : Type} [Score α]

namespace Model.Usable

variable {model : Model} {kind : PredictKind} {shape : LeafShape}

theorem exists_leaf_of_mem (h : model.Usable kind shape)
    {tree : Tree model.pairing.Threshold model.pairing.Leaf} (htree : tree ∈ model.trees.toList)
    {row : Array α} (hrow : row.size = model.info.numFeature.toInt.toNat) :
    ∃ leaf node, tree.leafOf? row = some leaf ∧ tree.node? leaf = some node ∧
      node.isLeaf = true := by
  obtain ⟨index, hindex⟩ := List.getElem?_of_mem htree
  rw [Array.getElem?_toList] at hindex
  obtain ⟨leaf, node, hleaf, hnode, hisLeaf, -⟩ := h.exists_leaf hindex hrow
  exact ⟨leaf, node, hleaf, hnode, hisLeaf⟩

theorem leafRow?_eq (h : model.Usable kind shape) {row : Array α}
    (hrow : row.size = model.info.numFeature.toInt.toNat) :
    ∃ ids : List α, (model.trees.toList.mapM fun tree => do
        return Numeric.cast (UInt32.ofNat (← tree.leafOf? row))) = some ids ∧
      leafRow? model.trees row = some ids.toArray := by
  have hleaves : ∀ tree ∈ model.trees.toList, ∃ id : α,
      (do return Numeric.cast (UInt32.ofNat (← tree.leafOf? row)) : Option α) = some id := by
    intro tree htree
    obtain ⟨leaf, node, hleaf, -⟩ := h.exists_leaf_of_mem htree hrow
    exact ⟨Numeric.cast (UInt32.ofNat leaf), by rw [hleaf]; rfl⟩
  obtain ⟨ids, hids⟩ := exists_mapM hleaves
  refine ⟨ids, hids, ?_⟩
  simp only [leafRow?, Array.mapM_eq_mapM_toList, hids]
  rfl

theorem leafRow_fills (h : model.Usable kind shape) :
    (⟨model.numTree, leafRow? model.trees⟩ : RowKernel α).Fills
      model.info.numFeature.toInt.toNat := by
  intro row hrow
  obtain ⟨ids, hids, hrowIds⟩ := h.leafRow?_eq hrow
  exact ⟨ids.toArray, hrowIds, by rw [List.size_toArray, length_of_mapM hids]; rfl⟩

private theorem size_treeOutput? {T L : Type} [Numeric T] [Numeric L] {size : Nat} {row : Array α}
    {tree : Tree T L} {output : Array α} (h : treeOutput? size row tree = some output) :
    output.size = size := by
  simp only [treeOutput?, Option.bind_eq_bind, Option.bind_eq_some_iff] at h
  obtain ⟨leaf, -, node, -, h⟩ := h
  by_cases hsize : size = 0
  · rw [if_pos hsize] at h
    cases h
  · rw [if_neg hsize] at h
    cases h
    simp

/-- The outputs of a row are found tree by tree, all of the same length. -/
theorem outputsRow?_eq (h : model.Usable kind shape) (hsize : leafSize model.info ≠ 0)
    {row : Array α} (hrow : row.size = model.info.numFeature.toInt.toNat) :
    ∃ outputs : List (Array α),
      model.trees.toList.mapM (treeOutput? (leafSize model.info) row) = some outputs ∧
      (∀ output ∈ outputs, output.toList.length = leafSize model.info) ∧
      outputsRow? (leafSize model.info) model.trees row =
        some (outputs.flatMap Array.toList).toArray := by
  have houtputs : ∀ tree ∈ model.trees.toList,
      ∃ output, treeOutput? (leafSize model.info) row tree = some output := by
    intro tree htree
    obtain ⟨leaf, node, hleaf, hnode, -⟩ := h.exists_leaf_of_mem htree hrow
    simp only [treeOutput?, hleaf, hnode, Option.bind_eq_bind, Option.bind_some, if_neg hsize]
    exact ⟨_, rfl⟩
  obtain ⟨outputs, hmapped⟩ := exists_mapM houtputs
  refine ⟨outputs, hmapped, fun output houtput => ?_, ?_⟩
  · obtain ⟨tree, -, htree⟩ := mem_of_mapM hmapped houtput
    rw [Array.length_toList, size_treeOutput? htree]
  · have hflat : outputs.toArray.flatten = (outputs.flatMap Array.toList).toArray := by
      rw [← Array.toList_inj, Array.toList_flatten, List.flatMap_def]
    simp only [outputsRow?, Array.mapM_eq_mapM_toList, hmapped, ← hflat]
    rfl

theorem outputsRow_fills (h : model.Usable kind shape) (hsize : leafSize model.info ≠ 0) :
    (⟨model.numTree * leafSize model.info, outputsRow? (leafSize model.info) model.trees⟩ :
      RowKernel α).Fills model.info.numFeature.toInt.toNat := by
  intro row hrow
  obtain ⟨outputs, hmapped, hlengths, hrowOutputs⟩ := h.outputsRow?_eq hsize hrow
  refine ⟨_, hrowOutputs, ?_⟩
  rw [List.size_toArray, length_flatMap hlengths, length_of_mapM hmapped]
  rfl

theorem kernel?_sums (h : model.Usable kind shape) (hsums : kind.sums = true)
    (post : Option Postprocessor) :
    ∃ counts, CountsFit model counts ∧ (kernel? model kind post : Option (RowKernel α)) =
      some ⟨(ScoreLayout.ofInfo model.info).stride,
        scoreRow? model.info model.trees counts post⟩ := by
  obtain ⟨entries, hentries, -, hcounts⟩ := treeCounts?_spec h hsums
  cases haverage : model.info.averageTreeOutput with
  | false =>
    refine ⟨none, by rw [CountsFit, haverage, if_neg Bool.false_ne_true], ?_⟩
    cases kind with
    | processed | raw => simp only [kernel?, haverage]; rfl
    | leafId | perTree => cases hsums
  | true =>
    have hfit : CountsFit model (some entries) := by
      rw [CountsFit, haverage, if_pos rfl]
      exact ⟨entries, rfl, hcounts⟩
    refine ⟨some entries, hfit, ?_⟩
    cases kind with
    | processed | raw => simp only [kernel?, haverage, hentries]; rfl
    | leafId | perTree => cases hsums

theorem maxNumClass_pos (h : model.Usable kind shape) : 0 < model.maxNumClass.toNat := by
  have htarget := h.numTarget_pos
  rw [UInt32.le_iff_toNat_le] at htarget
  obtain ⟨n, hn⟩ := exists_entry h.numClass_size htarget
  have hmem := Array.mem_of_getElem? hn
  have hone := h.numClass_pos n hmem
  have hmax := le_largestClassCount hmem
  rw [UInt32.le_iff_toNat_le] at hone hmax
  exact Nat.lt_of_lt_of_le (Nat.lt_of_lt_of_le Nat.one_pos hone) hmax

theorem stride_eq (h : model.Usable kind shape) : (ScoreLayout.ofInfo model.info).stride =
    model.info.numTarget.toNat * model.maxNumClass.toNat := by
  rw [ScoreLayout.stride, h.numTarget_eq, h.layout_eq]

theorem outputSize_sums (h : model.Usable kind shape) (hsums : kind.sums = true) (numRow : Nat) :
    model.outputSize numRow kind = numRow * (ScoreLayout.ofInfo model.info).stride := by
  have htarget := h.numTarget_pos
  rw [UInt32.le_iff_toNat_le] at htarget
  have hshape : model.outputShape numRow kind = if 1 < model.info.numTarget then
      [model.info.numTarget.toNat, numRow, model.maxNumClass.toNat]
    else [numRow, model.maxNumClass.toNat] := by
    cases kind with
    | processed | raw => rfl
    | leafId | perTree => cases hsums
  rw [outputSize, hshape, h.stride_eq]
  split
  · simp only [List.foldr_cons, List.foldr_nil, Nat.mul_one]
    ring
  · rename_i hone
    rw [UInt32.lt_iff_toNat_lt] at hone
    have : model.info.numTarget.toNat = 1 := Nat.le_antisymm (Nat.le_of_not_lt hone) htarget
    simp only [List.foldr_cons, List.foldr_nil, Nat.mul_one, this, Nat.one_mul]

/-- Every kind of prediction has its computation. It fills the rows of the answer, unless these
have no entries. -/
theorem exists_kernel (h : model.Usable kind shape) (post : Option Postprocessor) :
    ∃ kernel : RowKernel α, kernel? model kind post = some kernel ∧
      (∀ numRow, model.outputSize numRow kind = numRow * kernel.stride) ∧
      (kernel.stride ≠ 0 → kernel.Fills model.info.numFeature.toInt.toNat) := by
  cases hsums : kind.sums with
  | true =>
    obtain ⟨counts, hcounts, hkernel⟩ := kernel?_sums (α := α) h hsums post
    refine ⟨_, hkernel, h.outputSize_sums hsums, fun _ row hrow => ?_⟩
    obtain ⟨scores, hscores, hsize, -⟩ := scoreRow?_spec h hsums hcounts post hrow
    exact ⟨scores, hscores, hsize⟩
  | false =>
    cases kind with
    | processed | raw => cases hsums
    | leafId =>
      refine ⟨_, rfl, fun numRow => ?_, fun _ => h.leafRow_fills⟩
      simp [outputSize, outputShape]
    | perTree =>
      refine ⟨_, rfl, fun numRow => ?_, fun hstride =>
        h.outputsRow_fills fun hsize => hstride (by rw [hsize, Nat.mul_zero])⟩
      simp only [outputSize, outputShape, List.foldr_cons, List.foldr_nil, Nat.mul_one, leafSize]

end Model.Usable

namespace Predict

variable {numFeature numRow : Nat} {kernel : RowKernel α} {input : Array α}

omit [Score α] in
/-- Filling a buffer row by row puts what the computation returns for a row there, or leaves the
buffer alone where the pool does not start. -/
theorem byRow_outcome (machine : Machine) (threads : Nat)
    (hfills : kernel.stride ≠ 0 → kernel.Fills numFeature)
    (hinput : input.size = numRow * numFeature) (out : Array α)
    (hout : out.size = numRow * kernel.stride) :
    (∃ after, (byRow machine threads input numFeature kernel).apply out = (.ok (), after) ∧
        after.size = out.size ∧ ∀ r < numRow, ∀ j < kernel.stride,
          after[r * kernel.stride + j]? = (kernel.answer input numFeature r)[j]?) ∨
      ∃ cause, machine.startPool threads = .error cause ∧
        (byRow machine threads input numFeature kernel).apply out =
          (.error (.threading cause), out) := by
  rw [byRow]
  by_cases hstride : kernel.stride = 0
  · left
    refine ⟨out, ?_, rfl, fun r _ j hj => by omega⟩
    rw [hstride]
    exact machine.fillRowBlocks_zero threads out
  · have hlength : ∀ r < numRow, (kernel.answer input numFeature r).length = kernel.stride :=
      fun r hr => (hfills hstride).length_answer hinput hr
    rcases machine.fillRowBlocks_outcome threads hstride hlength
      (fun first rows block hlast hblock =>
        (hfills hstride).fillRows_eq hinput hstride hlast hblock) out hout with hok | herror
    · left
      refine ⟨_, hok, ?_, ?_⟩
      · rw [List.size_toArray, length_flatMap, List.length_range, hout]
        intro r hr
        exact hlength r (List.mem_range.mp hr)
      · intro r hr j hj
        rw [List.getElem?_toArray, getElem?_flatMap_range hlength hr hj]
    · exact .inr herror

/-- Filling a buffer target by target puts the same entries there in another order. -/
theorem byTarget_outcome (machine : Machine) (threads : Nat) {layout : ScoreLayout}
    (hstride : kernel.stride = layout.stride)
    (hfills : kernel.stride ≠ 0 → kernel.Fills numFeature)
    (hinput : input.size = numRow * numFeature) (out : Array α)
    (hout : out.size = numRow * kernel.stride) :
    (∃ after, (byTarget machine threads layout input numFeature numRow kernel).apply out =
          (.ok (), after) ∧
        after.size = out.size ∧
        ∀ t < layout.numTarget, ∀ r < numRow, ∀ c < layout.maxNumClass,
          after[(t * numRow + r) * layout.maxNumClass + c]? =
            (kernel.answer input numFeature r)[t * layout.maxNumClass + c]?) ∨
      ∃ cause, machine.startPool threads = .error cause ∧
        (byTarget machine threads layout input numFeature numRow kernel).apply out =
          (.error (.threading cause), out) := by
  rw [byTarget]
  rcases byRow_outcome machine threads hfills hinput
      (Array.replicate (numRow * kernel.stride) Numeric.zero) Array.size_replicate with
    ⟨scores, hok, hsize, hplaces⟩ | ⟨cause, hpool, herror⟩
  · left
    rw [Array.size_replicate, hstride] at hsize
    obtain ⟨after, hafter, hafterSize, hmoved⟩ := transpose?_spec hsize
    refine ⟨after, ?_, ?_, ?_⟩
    · simp only [hok, hafter, found, Edit.apply_bind, Edit.apply_lift, Edit.apply_set]
    · rw [hafterSize, hout, hstride, ScoreLayout.stride]
      ring
    · intro t ht r hr c hc
      have hlt : t * layout.maxNumClass + c < kernel.stride := by
        rw [hstride]
        exact ScoreLayout.place_lt ht hc
      rw [hmoved t ht r hr c hc, ← hplaces r hr _ hlt, hstride, ScoreLayout.stride]
  · right
    refine ⟨cause, hpool, ?_⟩
    simp only [herror, Edit.apply_bind, Edit.apply_lift]

end Predict

end Arboretum

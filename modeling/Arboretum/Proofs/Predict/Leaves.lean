import Arboretum.Proofs.Numeric.Naturals
import Arboretum.Proofs.Predict.Refinement

/-!
Predictions that sum nothing: the leaf that each row reaches in each tree, and the output of each
tree by itself. Every entry of the buffer is that of one row and one tree, whatever it held before
and however many blocks the rows are cut into.
-/

namespace Arboretum

open Predict

variable {α : Type} [Score α]

/-- An entry of the output of a leaf: that of its vector, or its single number with zeros behind
it. -/
def Node.outputAt? {T L : Type} [Numeric L] (node : Node T L) (j : Nat) : Option α :=
  if node.hasLeafVector then node.leafVector[j]?.map Numeric.cast
  else some (if j = 0 then Numeric.cast node.leafValue else Numeric.zero)

namespace Predict

theorem treeOutput?_spec {T L : Type} [Numeric T] [Numeric L] {size : Nat} {row : Array α}
    {tree : Tree T L} {leaf : Nat} {node : Node T L} (hleaf : tree.leafOf? row = some leaf)
    (hnode : tree.node? leaf = some node)
    (hvector : node.hasLeafVector = true → node.leafVector.size = size) (hsize : size ≠ 0) :
    ∃ output, treeOutput? size row tree = some output ∧
      ∀ j < size, ∃ entry, node.outputAt? j = some entry ∧ output[j]? = some entry := by
  simp only [treeOutput?, hleaf, hnode, Option.bind_eq_bind, Option.bind_some, if_neg hsize]
  refine ⟨_, rfl, fun j hj => ?_⟩
  cases hhas : node.hasLeafVector with
  | true =>
    obtain rfl := hvector hhas
    obtain ⟨entry, hentry⟩ := exists_entry rfl hj
    refine ⟨Numeric.cast entry, by simp [Node.outputAt?, hhas, hentry], ?_⟩
    simp [hentry]
  | false =>
    refine ⟨_, by rw [Node.outputAt?, hhas]; rfl, ?_⟩
    obtain ⟨size, rfl⟩ := Nat.exists_eq_succ_of_ne_zero hsize
    cases j with
    | zero => simp
    | succ j =>
      have hrest : j < size := by omega
      have hsingle : (#[node.leafValue].take (size + 1)).map Numeric.cast =
          #[(Numeric.cast node.leafValue : α)] := by simp
      rw [if_neg Bool.false_ne_true, hsingle, Array.getElem?_append_right (by simp),
        Array.getElem?_replicate, if_pos (by simpa using hrest)]
      rfl

end Predict

namespace Model

variable {model : Model} {kind : PredictKind} {shape : LeafShape}

namespace Usable

private theorem leafSize_eq (h : model.Usable kind shape) : leafSize model.info = shape.size := by
  rw [leafSize, h.leafVectorShape_eq, LeafShape.size]
  simp

private theorem toNat_ofNat_node (h : model.Usable kind shape) {index nid : Nat}
    {tree : Tree model.pairing.Threshold model.pairing.Leaf}
    (htree : model.trees[index]? = some tree)
    {node : Node model.pairing.Threshold model.pairing.Leaf}
    (hnode : tree.node? nid = some node) : (UInt32.ofNat nid).toNat = nid := by
  have hlt := (Tree.Checked.of_validate (h.fits index tree htree).valid).lt hnode
  have hcount := tree.nodeCount_lt
  exact UInt32.toNat_ofNat_of_lt' (Nat.lt_trans hlt (Nat.lt_trans hcount (by decide)))

section Answers

variable {input : Array α} {numRow r k : Nat}
  {tree : Tree model.pairing.Threshold model.pairing.Leaf}

theorem leafRow_answer (h : model.Usable kind shape)
    (hinput : input.size = numRow * model.info.numFeature.toInt.toNat) (hr : r < numRow)
    (htree : model.trees[k]? = some tree) :
    ∃ (leaf : Nat) (id : UInt32),
      tree.leafOf? (rowOf input model.info.numFeature.toInt.toNat r) = some leaf ∧
      id.toNat = leaf ∧
      ((⟨model.numTree, leafRow? model.trees⟩ : RowKernel α).answer input
        model.info.numFeature.toInt.toNat r)[k]? = some (Numeric.cast id) := by
  have hrow := size_rowOf hinput hr
  obtain ⟨leaf, node, hleaf, hnode, -⟩ := h.exists_leaf htree hrow
  obtain ⟨ids, hids, hentries⟩ := h.leafRow?_eq hrow
  refine ⟨leaf, .ofNat leaf, hleaf, h.toNat_ofNat_node htree hnode, ?_⟩
  rw [RowKernel.answer_eq hentries, getElem?_of_mapM hids, Array.getElem?_toList, htree,
    Option.bind_some, hleaf]
  rfl

theorem outputsRow_answer (h : model.Usable .perTree shape)
    (hinput : input.size = numRow * model.info.numFeature.toInt.toNat) (hr : r < numRow)
    (htree : model.trees[k]? = some tree) :
    ∃ leaf node, tree.leafOf? (rowOf input model.info.numFeature.toInt.toNat r) = some leaf ∧
      tree.node? leaf = some node ∧
      ∀ j < leafSize model.info, ∃ entry, node.outputAt? j = some entry ∧
        ((⟨model.numTree * leafSize model.info, outputsRow? (leafSize model.info) model.trees⟩ :
          RowKernel α).answer input model.info.numFeature.toInt.toNat r)[
            k * leafSize model.info + j]? = some entry := by
  have hrow := size_rowOf hinput hr
  obtain ⟨leaf, node, hleaf, hnode, hisLeaf, hfits⟩ := h.exists_leaf htree hrow
  refine ⟨leaf, node, hleaf, hnode, fun j hj => ?_⟩
  have hsize : leafSize model.info ≠ 0 := by omega
  obtain ⟨output, houtput, hplaces⟩ := treeOutput?_spec hleaf hnode
    (fun hvector => (hfits.vector_size hisLeaf (by decide) hvector).trans h.leafSize_eq.symm) hsize
  obtain ⟨entry, hentry, hplace⟩ := hplaces j hj
  obtain ⟨outputs, hmapped, hlengths, hentries⟩ := h.outputsRow?_eq hsize hrow
  refine ⟨entry, hentry, ?_⟩
  rw [RowKernel.answer_eq hentries, List.toList_toArray, getElem?_flatMap hlengths hj,
    getElem?_of_mapM hmapped, Array.getElem?_toList, htree, Option.bind_some, houtput,
    Option.bind_some, Array.getElem?_toList, hplace]

end Answers

end Usable

/-- A prediction that sums nothing ends well, unless it has no features to read and more rows than
can be addressed, and puts what is computed for each row there. -/
theorem predictOn_rows (machine : Machine) (threads : Int32) (input out : Array α) (numRow : Nat)
    (h : model.Usable kind shape) (hsums : kind.sums = false)
    (htype : Numeric.valueType α = model.pairing.leafType) (hfeature : 0 ≤ model.info.numFeature)
    (hinput : input.size = numRow * model.info.numFeature.toInt.toNat)
    (hout : out.size = model.outputSize numRow kind) (hsmall : out.size < 2 ^ 63)
    (hthreads : -1 ≤ threads) (hpool : ∀ workers, machine.startPool workers = .ok ()) :
    ∃ (kernel : RowKernel α) (result : Result Unit) (after : Array α),
      kernel? model kind none = some kernel ∧
      (model.predictOn machine ⟨kind, threads⟩ input numRow).apply out = (result, after) ∧
      (model.info.numFeature.toInt.toNat ≠ 0 ∨ numRow < 2 ^ 63 → result = .ok ()) ∧
      ∀ r < numRow, ∀ j < kernel.stride, after[r * kernel.stride + j]? =
        (kernel.answer input model.info.numFeature.toInt.toNat r)[j]? := by
  obtain ⟨kernel, hkernel, hsize, hfills⟩ := h.exists_kernel (α := α) none
  rw [hsize] at hout
  by_cases hrows : model.info.numFeature.toInt.toNat ≠ 0 ∨ numRow < 2 ^ 63
  · obtain ⟨workers, hworkers⟩ :=
      Configuration.resolveThreads_ok ⟨kind, threads⟩ machine.cores hthreads
    have hprepare := prepare_eq_ok.mpr ⟨htype, hfeature, hinput.symm, hout.trans (hsize _).symm,
      check_eq_ok.mpr ⟨shape, h⟩, hworkers, hrows, none, model.postprocessorFor_unsummed hsums,
      hkernel⟩
    rcases byRow_outcome machine workers hfills hinput out hout with
      ⟨after, hok, -, hplaces⟩ | ⟨cause, hfailed, -⟩
    · refine ⟨kernel, .ok (), after, hkernel, ?_, fun _ => rfl, hplaces⟩
      rw [predictOn_of_prepare hprepare, if_neg (by simp [hsums]), hok]
    · rw [hpool] at hfailed
      cases hfailed
  · -- so many rows fit into the buffer only if they have no entries
    refine ⟨kernel, _, _, hkernel, rfl, fun h => absurd h hrows, fun r hr j hj => ?_⟩
    have hle := Nat.le_mul_of_pos_right numRow (Nat.zero_lt_of_lt hj)
    omega

/-- Predicted leaves are those that the rows reach. -/
theorem predictOn_leaves (machine : Machine) (threads : Int32) (input out : Array α) (numRow : Nat)
    (hcheck : model.check .leafId = .ok ()) (htype : Numeric.valueType α = model.pairing.leafType)
    (hfeature : 0 ≤ model.info.numFeature)
    (hinput : input.size = numRow * model.info.numFeature.toInt.toNat)
    (hout : out.size = model.outputSize numRow .leafId) (hsmall : out.size < 2 ^ 63)
    (hthreads : -1 ≤ threads) (hpool : ∀ workers, machine.startPool workers = .ok ()) :
    ∃ (result : Result Unit) (after : Array α),
      (model.predictOn machine ⟨.leafId, threads⟩ input numRow).apply out = (result, after) ∧
      (model.info.numFeature.toInt.toNat ≠ 0 ∨ numRow < 2 ^ 63 → result = .ok ()) ∧
      ∀ r < numRow, ∀ k tree, model.trees[k]? = some tree → ∃ (leaf : Nat) (id : UInt32),
        tree.leafOf? (rowOf input model.info.numFeature.toInt.toNat r) = some leaf ∧
        id.toNat = leaf ∧ after[r * model.numTree + k]? = some (Numeric.cast id) := by
  obtain ⟨shape, h⟩ := check_eq_ok.mp hcheck
  obtain ⟨kernel, result, after, hkernel, happly, hok, hplaces⟩ := predictOn_rows machine threads
    input out numRow h rfl htype hfeature hinput hout hsmall hthreads hpool
  cases hkernel
  refine ⟨result, after, happly, hok, fun r hr k tree htree => ?_⟩
  obtain ⟨leaf, id, hleaf, hid, hanswer⟩ := h.leafRow_answer hinput hr htree
  obtain ⟨hk, -⟩ := Array.getElem?_eq_some_iff.mp htree
  exact ⟨leaf, id, hleaf, hid, (hplaces r hr k hk).trans hanswer⟩

/-- Read as a number, an entry is the leaf itself, in single precision for trees of up to two to the
24 nodes. -/
theorem predictOn_leaves_value {p : Precision} (machine : Machine) (threads : Int32)
    (input out : Array p.Word) (numRow : Nat) (hcheck : model.check .leafId = .ok ())
    (htype : p.valueType = model.pairing.leafType) (hfeature : 0 ≤ model.info.numFeature)
    (hinput : input.size = numRow * model.info.numFeature.toInt.toNat)
    (hout : out.size = model.outputSize numRow .leafId) (hsmall : out.size < 2 ^ 63)
    (hthreads : -1 ≤ threads) (hpool : ∀ workers, machine.startPool workers = .ok ()) :
    ∃ (result : Result Unit) (after : Array p.Word),
      (model.predictOn machine ⟨.leafId, threads⟩ input numRow).apply out = (result, after) ∧
      ∀ r < numRow, ∀ k tree, model.trees[k]? = some tree →
        (p = .single → tree.nodeCount ≤ 2 ^ 24) → ∃ (leaf : Nat) (entry : p.Word),
          tree.leafOf? (rowOf input model.info.numFeature.toInt.toNat r) = some leaf ∧
          after[r * model.numTree + k]? = some entry ∧
          FloatWord.value? entry = some (leaf : ℚ) := by
  have hword : Numeric.valueType p.Word = p.valueType := by cases p <;> rfl
  obtain ⟨result, after, happly, -, hleaves⟩ := predictOn_leaves machine threads input out numRow
    hcheck (hword.trans htype) hfeature hinput hout hsmall hthreads hpool
  refine ⟨result, after, happly, fun r hr k tree htree hsize => ?_⟩
  obtain ⟨leaf, id, hleaf, rfl, hentry⟩ := hleaves r hr k tree htree
  refine ⟨_, _, hleaf, hentry, Precision.value?_cast_uint32 id fun hsingle => ?_⟩
  obtain ⟨shape, h⟩ := check_eq_ok.mp hcheck
  obtain ⟨node, hnode, -⟩ := Tree.isLeaf_of_leafBelow? hleaf
  have hlt := (Tree.Checked.of_validate (h.fits k tree htree).valid).lt hnode
  exact hlt.le.trans (hsize hsingle)

/-- Predicted leaves are those that the rows reach, and predicted outputs are those of these
leaves, row by row and tree by tree, with the entries of an output side by side. -/
theorem predictOn_unsummed (machine : Machine) (model : Model) (threads : Int32)
    (input out : Array α) (numRow : Nat) (htype : Numeric.valueType α = model.pairing.leafType)
    (hfeature : 0 ≤ model.info.numFeature)
    (hinput : input.size = numRow * model.info.numFeature.toInt.toNat)
    (hsmall : out.size < 2 ^ 63) (hthreads : -1 ≤ threads)
    (hpool : ∀ workers, machine.startPool workers = .ok ()) :
    (model.check .leafId = .ok () → out.size = model.outputSize numRow .leafId →
      ∃ (result : Result Unit) (after : Array α),
        (model.predictOn machine ⟨.leafId, threads⟩ input numRow).apply out = (result, after) ∧
        (model.info.numFeature.toInt.toNat ≠ 0 ∨ numRow < 2 ^ 63 → result = .ok ()) ∧
        ∀ r < numRow, ∀ k tree, model.trees[k]? = some tree → ∃ (leaf : Nat) (id : UInt32),
          tree.leafOf? (rowOf input model.info.numFeature.toInt.toNat r) = some leaf ∧
          id.toNat = leaf ∧ after[r * model.numTree + k]? = some (Numeric.cast id)) ∧
    (model.check .perTree = .ok () → out.size = model.outputSize numRow .perTree →
      ∃ (result : Result Unit) (after : Array α) (targets classes : UInt32),
        (model.predictOn machine ⟨.perTree, threads⟩ input numRow).apply out = (result, after) ∧
        (model.info.numFeature.toInt.toNat ≠ 0 ∨ numRow < 2 ^ 63 → result = .ok ()) ∧
        model.info.leafVectorShape = #[targets, classes] ∧
        ∀ r < numRow, ∀ k tree, model.trees[k]? = some tree → ∃ leaf node,
          tree.leafOf? (rowOf input model.info.numFeature.toInt.toNat r) = some leaf ∧
          tree.node? leaf = some node ∧
          ∀ j < targets.toNat * classes.toNat, ∃ entry, node.outputAt? j = some entry ∧
            after[(r * model.numTree + k) * (targets.toNat * classes.toNat) + j]? =
              some entry) := by
  constructor
  · intro hcheck hout
    exact predictOn_leaves machine threads input out numRow hcheck htype hfeature hinput hout hsmall
      hthreads hpool
  · intro hcheck hout
    obtain ⟨shape, h⟩ := check_eq_ok.mp hcheck
    obtain ⟨kernel, result, after, hkernel, happly, hok, hplaces⟩ := predictOn_rows machine threads
      input out numRow h rfl htype hfeature hinput hout hsmall hthreads hpool
    cases hkernel
    refine ⟨result, after, shape.targets, shape.classes, happly, hok, h.leafVectorShape_eq,
      fun r hr k tree htree => ?_⟩
    obtain ⟨leaf, node, hleaf, hnode, hentries⟩ := h.outputsRow_answer hinput hr htree
    obtain ⟨hk, -⟩ := Array.getElem?_eq_some_iff.mp htree
    have hsize : shape.targets.toNat * shape.classes.toNat = leafSize model.info :=
      h.leafSize_eq.symm
    rw [hsize]
    refine ⟨leaf, node, hleaf, hnode, fun j hj => ?_⟩
    obtain ⟨entry, hentry, hanswer⟩ := hentries j hj
    refine ⟨entry, hentry, ?_⟩
    have hindex : (r * model.numTree + k) * leafSize model.info + j =
        r * (model.numTree * leafSize model.info) + (k * leafSize model.info + j) := by ring
    rw [hindex]
    exact (hplaces r hr _ (ScoreLayout.place_lt hk hj)).trans hanswer

def scalarTree : Tree Double Double :=
  ((Tree.setLeaf 0 Score.one : Edit (Tree Double Double) Unit).apply Tree.singleLeaf).2

def mixed : Model :=
  { create ⟨.double, false⟩ with
    trees := #[sampleTree Score.one ⟨0⟩, scalarTree]
    info := sample.info }

/-- The second row goes to the right in the first tree, and the number of the second tree has three
zeros behind it, whatever the buffer held before. -/
theorem predictOn_unsummed_mixed :
    (∃ after, (mixed.predictOn (.ofCores 4) ⟨.leafId, 0⟩ #[⟨0⟩, Score.one] 2).apply
        (Array.replicate 4 (Score.one : Double)) = (.ok (), after) ∧
      after[1 * mixed.numTree + 0]? = some ⟨0x4000000000000000⟩) ∧
    ∃ after, (mixed.predictOn (.ofCores 4) ⟨.perTree, 0⟩ #[⟨0⟩, Score.one] 2).apply
        (Array.replicate 16 (Score.one : Double)) = (.ok (), after) ∧
      ∀ j < 4, after[(1 * mixed.numTree + 1) * 4 + j]? =
        some (if j = 0 then Score.one else Numeric.zero) := by
  have htype : Numeric.valueType Double = mixed.pairing.leafType := rfl
  have hfeature : 0 ≤ mixed.info.numFeature := by decide
  have hinput : (#[⟨0⟩, Score.one] : Array Double).size =
      2 * mixed.info.numFeature.toInt.toNat := rfl
  have hsmall : ∀ n < 17, (Array.replicate n (Score.one : Double)).size < 2 ^ 63 := by
    intro n hn
    rw [Array.size_replicate]
    omega
  have hall := fun (n : Nat) (hn : n < 17) => predictOn_unsummed (.ofCores 4) mixed 0
    #[⟨0⟩, Score.one] (Array.replicate n Score.one) 2 htype hfeature hinput (hsmall n hn)
    (by decide) fun _ => rfl
  constructor
  · obtain ⟨result, after, happly, hok, hleaves⟩ :=
      (hall 4 (by decide)).1 (by decide +kernel) (by decide +kernel)
    obtain ⟨leaf, id, hleaf, hid, hplace⟩ := hleaves 1 (by decide) 0 _ rfl
    have htwo : (sampleTree Score.one ⟨0⟩).leafOf? (rowOf #[⟨0⟩, (Score.one : Double)]
        mixed.info.numFeature.toInt.toNat 1) = some 2 := by decide +kernel
    cases hleaf.symm.trans htwo
    obtain rfl : id = 2 := UInt32.toNat_inj.mp hid
    rw [hok (.inr (by decide))] at happly
    have hbits : (Numeric.cast (2 : UInt32) : Double) = ⟨0x4000000000000000⟩ := by decide +kernel
    exact ⟨after, happly, hplace.trans (congrArg some hbits)⟩
  · obtain ⟨result, after, targets, classes, happly, hok, hshape, houtputs⟩ :=
      (hall 16 (by decide)).2 (by decide +kernel) (by decide +kernel)
    cases hshape
    obtain ⟨leaf, node, hleaf, hnode, hentries⟩ := houtputs 1 (by decide) 1 _ rfl
    have hzero : scalarTree.leafOf? (rowOf #[⟨0⟩, (Score.one : Double)]
        mixed.info.numFeature.toInt.toNat 1) = some 0 := by decide +kernel
    have hscalar : ∀ j < 4, (scalarTree.node? 0).bind (Node.outputAt? · j) =
        some (if j = 0 then (Score.one : Double) else Numeric.zero) := by decide +kernel
    cases hleaf.symm.trans hzero
    rw [hok (.inr (by decide))] at happly
    refine ⟨after, happly, fun j hj => ?_⟩
    obtain ⟨entry, hentry, hplace⟩ := hentries j hj
    have hshown : scalarTree.node? 0 = some node := hnode
    have houtput := hscalar j hj
    rw [hshown] at houtput
    exact (hplace.trans hentry.symm).trans houtput

end Model

end Arboretum

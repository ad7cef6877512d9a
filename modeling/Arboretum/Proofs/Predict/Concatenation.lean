import Arboretum.Proofs.Model.Concatenation
import Arboretum.Proofs.Predict.Leaves
import Arboretum.Proofs.Predict.Paired

/-!
Predictions of models that are put together. A prediction that sums nothing computes each tree by
itself, and so where it goes through for some models it does for all of their trees in one model,
and each row of the answer holds the rows of theirs side by side.
-/

namespace Arboretum

open Predict

section Blocks

variable {α : Type} {threads n stride : Nat} {fill : Nat → Array α → Result (Array α)}
  {machine : Machine} {out after : Array α}

theorem length_rowBlocks (threads n : Nat) (hs : stride ≠ 0) :
    (rowBlocks threads (n * stride) stride).length = (rowBlocks threads n 1).length := by
  have hpos := Nat.pos_of_ne_zero hs
  rw [rowBlocks, rowBlocks]
  by_cases hn : n = 0
  · rw [if_pos (by simp [hn]), if_pos (by simp [hn])]
  · rw [if_neg (by simp [hs, hn]), if_neg (by simp [hn]), Nat.mul_div_cancel n hpos, Nat.div_one]
    dsimp only
    split
    · rfl
    · next hmany =>
      rw [List.length_map, List.length_map, List.length_range, List.length_range,
        ceilDiv_mul_mul (blockInfo_pos hn hmany) hpos, Nat.mul_one]

private theorem fillRowBlocks_of_single (other : Machine)
    (hfew : ¬ 1 < (rowBlocks threads out.size stride).length) :
    (machine.fillRowBlocks threads stride fill).apply out =
      (other.fillRowBlocks threads stride fill).apply out := by
  rw [Machine.fillRowBlocks, Machine.fillRowBlocks]
  simp only [Edit.apply_bind, Edit.apply_get, if_neg hfew]

private theorem startPool_of_fillRowBlocks
    (hok : (machine.fillRowBlocks threads stride fill).apply out = (.ok (), after))
    (hmany : 1 < (rowBlocks threads out.size stride).length) :
    machine.startPool threads = .ok () := by
  rw [Machine.fillRowBlocks] at hok
  simp only [Edit.apply_bind, Edit.apply_get, if_pos hmany, Edit.apply_lift, Machine.start] at hok
  cases hpool : machine.startPool threads with
  | ok started => rfl
  | error cause =>
    rw [hpool] at hok
    cases hok

end Blocks

private theorem Predict.byRow_ok {α : Type} {numFeature numRow threads : Nat} {kernel : RowKernel α}
    {input out : Array α} (machine : Machine) (hfills : kernel.Fills numFeature)
    (hinput : input.size = numRow * numFeature) (hout : out.size = numRow * kernel.stride)
    (hstart : 1 < (rowBlocks threads out.size kernel.stride).length →
      machine.startPool threads = .ok ()) :
    ∃ after, (byRow machine threads input numFeature kernel).apply out = (.ok (), after) := by
  by_cases hmany : 1 < (rowBlocks threads out.size kernel.stride).length
  · rcases byRow_outcome machine threads (fun _ => hfills) hinput out hout with
      ⟨after, hok, -⟩ | ⟨cause, hfailed, -⟩
    · exact ⟨after, hok⟩
    · rw [hstart hmany] at hfailed
      cases hfailed
  · rcases byRow_outcome (.ofCores 1) threads (fun _ => hfills) hinput out hout with
      ⟨after, hok, -⟩ | ⟨cause, hfailed, -⟩
    · exact ⟨after, (fillRowBlocks_of_single (.ofCores 1) hmany).trans hok⟩
    · cases hfailed

/-- The same route is taken whatever was skipped when the tree was read. -/
theorem Tree.leafOf?_stored {T L α : Type} [Numeric T] [Score α] (tree : Tree T L)
    (row : Array α) : tree.stored.leafOf? row = tree.leafOf? row := by
  have hbelow : ∀ steps nid, tree.stored.leafBelow? row steps nid =
      tree.leafBelow? row steps nid := by
    intro steps
    induction steps with
    | zero => exact fun _ => rfl
    | succ steps ih =>
      intro nid
      rw [leafBelow?, leafBelow?]
      simp only [ih]
      rfl
  exact hbelow tree.nodeCount 0

variable {α : Type} [Score α]

/-- What a tree contributes to a row of a prediction that sums nothing. -/
def Predict.treeEntries? {T L : Type} [Numeric T] [Numeric L] (kind : PredictKind) (size : Nat)
    (row : Array α) (tree : Tree T L) : Option (List α) :=
  if kind = .leafId then (tree.leafOf? row).map fun leaf => [Numeric.cast (UInt32.ofNat leaf)]
  else (treeOutput? size row tree).map Array.toList

private theorem Predict.treeEntries?_stored {T L : Type} [Numeric T] [Numeric L]
    (kind : PredictKind) (size : Nat) (row : Array α) (tree : Tree T L) :
    treeEntries? kind size row tree.stored = treeEntries? kind size row tree := by
  simp only [treeEntries?, treeOutput?, Tree.leafOf?_stored]
  rfl

theorem mapM_map {β γ δ : Type} (f : β → Option γ) (g : γ → δ) (l : List β) :
    l.mapM (fun b => (f b).map g) = (l.mapM f).map (List.map g) := by
  induction l with
  | nil => rfl
  | cons b l ih =>
    simp only [List.mapM_cons, ih]
    cases f b <;> cases l.mapM f <;> rfl

/-- A row of such a prediction holds what the trees contribute, one after the other. -/
theorem Predict.entries?_eq {model : Model} {kind : PredictKind} {post : Option Postprocessor}
    {kernel : RowKernel α} (hsums : kind.sums = false)
    (hkernel : kernel? model kind post = some kernel) (row : Array α) :
    kernel.entries? row = (model.trees.toList.mapM
      (treeEntries? kind (leafSize model.info) row)).map
        fun entries => entries.flatten.toArray := by
  cases kind with
  | processed | raw => cases hsums
  | leafId =>
    cases hkernel
    have hentries : (treeEntries? .leafId (leafSize model.info) row :
        Tree model.pairing.Threshold model.pairing.Leaf → Option (List α)) = fun tree =>
          (do return Numeric.cast (UInt32.ofNat (← tree.leafOf? row))).map fun id => [id] := by
      funext tree
      cases hleaf : tree.leafOf? row <;> simp [treeEntries?, hleaf]
    rw [hentries, mapM_map, Option.map_map]
    simp only [leafRow?, Array.mapM_eq_mapM_toList]
    generalize (List.mapM (m := Option) _ model.trees.toList : Option (List α)) = ids
    cases ids with
    | none => rfl
    | some ids => simp [← List.flatMap_def]
  | perTree =>
    cases hkernel
    have hentries : (treeEntries? .perTree (leafSize model.info) row :
        Tree model.pairing.Threshold model.pairing.Leaf → Option (List α)) = fun tree =>
          (treeOutput? (leafSize model.info) row tree).map Array.toList := rfl
    rw [hentries, mapM_map, Option.map_map]
    simp only [outputsRow?, Array.mapM_eq_mapM_toList]
    generalize (List.mapM (m := Option) _ model.trees.toList : Option (List (Array α))) = outputs
    cases outputs with
    | none => rfl
    | some outputs => simp

private theorem rowOf_eq_of_places {β : Type} {after : Array β} {row : List β}
    {numRow stride r : Nat}
    (hsize : after.size = numRow * stride) (hr : r < numRow) (hlength : row.length = stride)
    (hplaces : ∀ j < stride, after[r * stride + j]? = row[j]?) :
    (rowOf after stride r).toList = row := by
  have hrow := size_rowOf hsize hr
  refine List.ext_getElem? fun j => ?_
  rw [Array.getElem?_toList]
  by_cases hj : j < stride
  · rw [rowOf, Array.size_extract] at hrow
    rw [← hplaces j hj, rowOf, Array.getElem?_extract, if_pos (by omega)]
  · rw [List.getElem?_eq_none (by omega), Array.getElem?_eq_none (by omega)]

namespace Model

variable {model : Model} {machine : Machine} {config : Configuration} {input out after : Array α}
  {numRow : Nat}

private theorem Usable.unsummed_fills {kind : PredictKind} {shape : LeafShape}
    {kernel : RowKernel α}
    {post : Option Postprocessor} (h : model.Usable kind shape) (hsums : kind.sums = false)
    (hsize : kind = .perTree → leafSize model.info ≠ 0)
    (hkernel : kernel? model kind post = some kernel) :
    kernel.Fills model.info.numFeature.toInt.toNat := by
  cases kind with
  | processed | raw => cases hsums
  | leafId =>
    cases hkernel
    exact h.leafRow_fills
  | perTree =>
    cases hkernel
    exact h.outputsRow_fills (hsize rfl)

/-- The rows of a prediction that sums nothing hold what the trees contribute. -/
theorem row_of_predictOn_ok (hsums : config.kind.sums = false)
    (hsize : config.kind = .perTree → leafSize model.info ≠ 0)
    (hok : (model.predictOn machine config input numRow).apply out = (.ok (), after)) {r : Nat}
    (hr : r < numRow) :
    ∃ entries, model.trees.toList.mapM (treeEntries? config.kind (leafSize model.info)
        (rowOf input model.info.numFeature.toInt.toNat r)) = some entries ∧
      (rowOf after (model.outputSize 1 config.kind) r).toList = entries.flatten := by
  obtain ⟨threads, kernel, hprepare⟩ := prepare_of_predictOn_ok hok
  obtain ⟨-, -, hinput, hout, -, -, -, post, -, hkernel⟩ := prepare_eq_ok.mp hprepare
  obtain ⟨shape, husable, houtput, -⟩ := exists_usable_of_prepare hprepare
  have hfills := husable.unsummed_fills hsums hsize hkernel
  rw [houtput] at hout
  rw [predictOn_of_prepare hprepare, if_neg (by simp [hsums])] at hok
  rw [houtput, Nat.one_mul]
  rcases byRow_outcome machine threads (fun _ => hfills) hinput.symm out hout with
    ⟨filled, hfilled, hfilledSize, hplaces⟩ | ⟨cause, -, hfailed⟩
  · cases hfilled.symm.trans hok
    obtain ⟨row, hrow, -⟩ := hfills _ (size_rowOf hinput.symm hr)
    have hentries := entries?_eq hsums hkernel (rowOf input model.info.numFeature.toInt.toNat r)
    rw [hrow] at hentries
    obtain ⟨entries, hmapped, hflat⟩ := Option.map_eq_some_iff.mp hentries.symm
    refine ⟨entries, hmapped, ?_⟩
    rw [rowOf_eq_of_places (hfilledSize.trans hout) hr (hfills.length_answer hinput.symm hr)
      (hplaces r hr), RowKernel.answer_eq hrow, ← hflat]
  · rw [hfailed] at hok
    cases hok

section Gathered

variable {pairing : Pairing} {info : ModelInfo} {models : List Model} {kind : PredictKind}
  {shape : LeafShape}

/-- Two descriptions of models that agree on everything that is looked at for leaves. -/
structure Compatible (info other : ModelInfo) : Prop where
  numFeature : other.numFeature = info.numFeature
  numTarget : other.numTarget = info.numTarget
  numClass : other.numClass = info.numClass
  leafVectorShape : other.leafVectorShape = info.leafVectorShape

private theorem leafSize_congr {other : ModelInfo} (h : Compatible info other) :
    leafSize other = leafSize info := by
  rw [leafSize, h.leafVectorShape, leafSize]

private theorem length_treesOf (h : model.pairing = pairing) :
    (treesOf pairing model).length = model.numTree := by
  subst h
  rw [treesOf, dif_pos rfl]
  exact Array.length_toList

private theorem treeFits_stored {T L : Type} {other : ModelInfo} {index place : Nat}
    {tree : Tree T L} (hsums : kind.sums = false) (h : Compatible info other)
    (hfits : TreeFits other kind shape place tree) :
    TreeFits info kind shape index tree.stored where
  nonempty := hfits.nonempty
  valid := tree.stored_validate.trans hfits.valid
  node := by
    intro nid node hnode
    have hnodeFits := hfits.node nid node hnode
    refine ⟨hnodeFits.vector_size, fun _ hk => ?_, ?_, hnodeFits.comparison⟩
    · rw [hsums] at hk
      cases hk
    · rw [← h.numFeature]
      exact hnodeFits.feature_lt

private theorem treeFits_of_mem (hpairing : model.pairing = pairing) (hsums : kind.sums = false)
    (h : Compatible info model.info) (husable : model.Usable kind shape)
    {tree : Tree pairing.Threshold pairing.Leaf} (htree : tree ∈ treesOf pairing model)
    (index : Nat) : TreeFits info kind shape index tree.stored := by
  subst hpairing
  rw [treesOf, dif_pos rfl] at htree
  obtain ⟨place, hplace⟩ := List.getElem?_of_mem htree
  rw [Array.getElem?_toList] at hplace
  exact treeFits_stored hsums h (husable.fits place tree hplace)

private theorem usable_of_check (h : model.check kind = .ok ())
    (hshape : model.info.leafVectorShape = #[shape.targets, shape.classes]) :
    model.Usable kind shape := by
  obtain ⟨own, husable⟩ := check_eq_ok.mp h
  have hown := husable.leafVectorShape_eq.symm.trans hshape
  obtain ⟨targets, classes⟩ := own
  obtain ⟨targets', classes'⟩ := shape
  simp only [Array.mk.injEq, List.cons.injEq, and_true] at hown
  obtain ⟨rfl, rfl⟩ := hown
  exact husable

private theorem length_flatMap_treesOf {β : Type} {ids : ModelInfo → Array β}
    (hpairing : ∀ model ∈ models, model.pairing = pairing)
    (hids : ∀ model ∈ models, (ids model.info).size = model.numTree) :
    (models.flatMap fun model => (ids model.info).toList).length =
      (models.flatMap (treesOf pairing)).length := by
  simp only [List.length_flatMap, Array.length_toList]
  refine congrArg List.sum (List.map_congr_left fun model hmodel => ?_)
  rw [hids model hmodel, length_treesOf (hpairing model hmodel)]

theorem check_gather (hne : models ≠ []) (hsums : kind.sums = false)
    (hpairing : ∀ model ∈ models, model.pairing = pairing)
    (hcompatible : ∀ model ∈ models, Compatible info model.info)
    (hcheck : ∀ model ∈ models, model.check kind = .ok ()) :
    (gather pairing info models).refreshed.check kind = .ok () := by
  obtain ⟨first, hfirst⟩ := List.exists_mem_of_ne_nil models hne
  obtain ⟨shape, hone⟩ := check_eq_ok.mp (hcheck first hfirst)
  have hagree := hcompatible first hfirst
  have hshape := hagree.leafVectorShape.symm.trans hone.leafVectorShape_eq
  have husable : ∀ model ∈ models, model.Usable kind shape := fun model hmodel =>
    usable_of_check (hcheck model hmodel) ((hcompatible model hmodel).leafVectorShape.trans hshape)
  have hnum : (gather pairing info models).refreshed.numTree = _ := numTree_gather
  refine check_eq_ok.mpr ⟨shape, ?_⟩
  rw [refreshed_gather] at hnum ⊢
  refine ⟨hagree.numTarget ▸ hone.numTarget_pos,
    hagree.numTarget ▸ hagree.numClass ▸ hone.numClass_size,
    hagree.numClass ▸ hone.numClass_pos, hshape, ?_, ?_, ?_, ?_, ?_⟩
  · rw [hnum, List.size_toArray]
    exact length_flatMap_treesOf hpairing fun model hmodel => (husable model hmodel).targetId_size
  · rw [hnum, List.size_toArray]
    exact length_flatMap_treesOf hpairing fun model hmodel => (husable model hmodel).classId_size
  · exact fun hk => absurd hk (by simp [hsums])
  · exact fun hk => absurd hk (by simp [hsums])
  · intro index tree htree
    rw [List.getElem?_toArray] at htree
    obtain ⟨own, hown, rfl⟩ := List.mem_map.mp (List.mem_of_getElem? htree)
    obtain ⟨model, hmodel, hmem⟩ := List.mem_flatMap.mp hown
    have hown := hcompatible model hmodel
    refine treeFits_of_mem (hpairing model hmodel) hsums ?_ (husable model hmodel) hmem index
    exact ⟨hown.numFeature, hown.numTarget, hown.numClass, hown.leafVectorShape⟩

def answerRow {α : Type} (kind : PredictKind) (r : Nat) (answer : Model × Array α) : List α :=
  (rowOf answer.2 (answer.1.outputSize 1 kind) r).toList

private theorem mapM_treesOf (hpairing : model.pairing = pairing) (h : Compatible info model.info)
    {row : Array α} {entries : List (List α)} (hentries : model.trees.toList.mapM
      (treeEntries? kind (leafSize model.info) row) = some entries) :
    ((treesOf pairing model).map Tree.stored).mapM (treeEntries? kind (leafSize info) row) =
      some entries := by
  subst hpairing
  rw [leafSize_congr h] at hentries
  rw [List.mapM_map, treesOf, dif_pos rfl]
  simp only [Function.comp_def, treeEntries?_stored]
  exact hentries

private theorem exists_entries {answers : List (Array α)} {r : Nat} (hr : r < numRow)
    (hsums : config.kind.sums = false)
    (hsize : config.kind = .perTree → leafSize info ≠ 0)
    (hpairing : ∀ model ∈ models, model.pairing = pairing)
    (hcompatible : ∀ model ∈ models, Compatible info model.info)
    (hanswers : List.Forall₂ (fun model after =>
      ∃ out, (Model.predictOn machine model config input numRow).apply out = (.ok (), after))
      models answers) :
    ∃ entries, ((models.flatMap (treesOf pairing)).map Tree.stored).mapM
        (treeEntries? config.kind (leafSize info)
          (rowOf input info.numFeature.toInt.toNat r)) = some entries ∧
      entries.flatten = (models.zip answers).flatMap (answerRow config.kind r) := by
  induction hanswers with
  | nil => exact ⟨[], rfl, rfl⟩
  | @cons model after models answers hmodel hrest ih =>
    obtain ⟨hown, hothers⟩ := List.forall_mem_cons.mp hpairing
    obtain ⟨hfits, hfitsOthers⟩ := List.forall_mem_cons.mp hcompatible
    obtain ⟨later, hlater, hflat⟩ := ih hothers hfitsOthers
    obtain ⟨out, hok⟩ := hmodel
    have hsizeOwn : config.kind = .perTree → leafSize model.info ≠ 0 :=
      fun hkind => leafSize_congr hfits ▸ hsize hkind
    obtain ⟨entries, hentries, hrow⟩ := row_of_predictOn_ok hsums hsizeOwn hok hr
    rw [hfits.numFeature] at hentries
    refine ⟨entries ++ later, ?_, ?_⟩
    · rw [List.flatMap_cons, List.map_append, List.mapM_append, mapM_treesOf hown hfits hentries,
        hlater]
      rfl
    · rw [List.flatten_append, List.zip_cons_cons, List.flatMap_cons, hflat, answerRow, hrow]

private theorem outputSize_perTree (model : Model) :
    model.outputSize 1 .perTree = model.numTree * leafSize model.info := by
  simp [outputSize, outputShape, leafSize]

private theorem outputSize_gather_eq_zero (hsums : kind.sums = false)
    (hpairing : ∀ model ∈ models, model.pairing = pairing)
    (hcompatible : ∀ model ∈ models, Compatible info model.info) :
    (gather pairing info models).refreshed.outputSize 1 kind = 0 ↔
      ∀ model ∈ models, model.outputSize 1 kind = 0 := by
  have hnum : (gather pairing info models).refreshed.numTree = 0 ↔
      ∀ model ∈ models, model.numTree = 0 := by
    rw [numTree_gather, List.length_eq_zero_iff, List.flatMap_eq_nil_iff]
    refine forall₂_congr fun model hmodel => ?_
    rw [← length_treesOf (hpairing model hmodel), List.length_eq_zero_iff]
  cases kind with
  | processed | raw => cases hsums
  | leafId => simpa [outputSize, outputShape] using hnum
  | perTree =>
    have hleaf : leafSize (gather pairing info models).refreshed.info = leafSize info := rfl
    simp only [outputSize_perTree, hleaf, Nat.mul_eq_zero, hnum]
    constructor
    · rintro (hnone | hempty) model hmodel
      · exact .inl (hnone model hmodel)
      · exact .inr ((leafSize_congr (hcompatible model hmodel)).trans hempty)
    · intro hall
      by_cases hempty : leafSize info = 0
      · exact .inr hempty
      · refine .inl fun model hmodel => (hall model hmodel).resolve_right ?_
        rw [leafSize_congr (hcompatible model hmodel)]
        exact hempty

private theorem leafSize_ne_zero (hrow : model.outputSize 1 kind ≠ 0) (hkind : kind = .perTree) :
    leafSize model.info ≠ 0 := by
  subst hkind
  rw [outputSize_perTree] at hrow
  exact (Nat.mul_ne_zero_iff.mp hrow).2

theorem prepare_gather (hne : models ≠ []) (hsums : config.kind.sums = false)
    (hpairing : ∀ model ∈ models, model.pairing = pairing)
    (hcompatible : ∀ model ∈ models, Compatible info model.info)
    (hprepared : ∀ model ∈ models, ∃ outSize threads, ∃ kernel : RowKernel α,
      model.prepare machine config input numRow outSize = .ok (threads, kernel)) :
    ∃ threads, ∃ kernel : RowKernel α, (gather pairing info models).refreshed.prepare machine config
      input numRow ((gather pairing info models).refreshed.outputSize numRow config.kind) =
        .ok (threads, kernel) := by
  have hcheck := check_gather hne hsums hpairing hcompatible fun model hmodel => by
    obtain ⟨outSize, threads, kernel, hprepare⟩ := hprepared model hmodel
    obtain ⟨-, -, -, -, hcheck, -⟩ := prepare_eq_ok.mp hprepare
    exact hcheck
  obtain ⟨shape, husable⟩ := check_eq_ok.mp hcheck
  obtain ⟨kernel, hkernel, -⟩ := husable.exists_kernel (α := α) none
  obtain ⟨first, hfirst⟩ := List.exists_mem_of_ne_nil models hne
  obtain ⟨outSize, threads, own, hprepare⟩ := hprepared first hfirst
  obtain ⟨htype, hfeature, hinput, -, -, hthreads, hrows, -⟩ := prepare_eq_ok.mp hprepare
  rw [hpairing first hfirst] at htype
  rw [(hcompatible first hfirst).numFeature] at hfeature hinput hrows
  exact ⟨threads, kernel, prepare_eq_ok.mpr ⟨htype, hfeature, hinput, rfl, hcheck, hthreads, hrows,
    none, postprocessorFor_unsummed _ hsums, hkernel⟩⟩

private theorem startPool_of_predictOn_ok {threads stride : Nat} (hsums : config.kind.sums = false)
    (hthreads : config.resolveThreads machine.cores = .ok threads)
    (hok : (model.predictOn machine config input numRow).apply out = (.ok (), after))
    (hwide : model.outputSize 1 config.kind ≠ 0) (hstride : stride ≠ 0)
    (hmany : 1 < (rowBlocks threads (numRow * stride) stride).length) :
    machine.startPool threads = .ok () := by
  obtain ⟨threads', kernel, hprepare⟩ := prepare_of_predictOn_ok hok
  obtain ⟨-, -, -, hout, -, hthreads', -⟩ := prepare_eq_ok.mp hprepare
  obtain ⟨shape, -, hsize, -⟩ := exists_usable_of_prepare hprepare
  cases hthreads.symm.trans hthreads'
  rw [predictOn_of_prepare hprepare, if_neg (by simp [hsums])] at hok
  rw [hsize] at hout hwide
  refine startPool_of_fillRowBlocks hok ?_
  rwa [hout, length_rowBlocks threads numRow (Nat.mul_ne_zero_iff.mp hwide).2,
    ← length_rowBlocks threads numRow hstride]

/-- A prediction that sums nothing and goes through for all of some models does so for the model
that they are put together to, with the same machine and the same input. -/
theorem predictOn_gather_ok (hne : models ≠ []) (hsums : config.kind.sums = false)
    (hpairing : ∀ model ∈ models, model.pairing = pairing)
    (hcompatible : ∀ model ∈ models, Compatible info model.info)
    (hanswers : ∀ model ∈ models, ∃ out after : Array α,
      (model.predictOn machine config input numRow).apply out = (.ok (), after))
    (hout : out.size = (gather pairing info models).refreshed.outputSize numRow config.kind) :
    ∃ after, ((gather pairing info models).refreshed.predictOn machine config input numRow).apply
      out = (.ok (), after) := by
  obtain ⟨threads, kernel, hprepare⟩ :=
    prepare_gather (α := α) hne hsums hpairing hcompatible fun model hmodel => by
      obtain ⟨out, after, hok⟩ := hanswers model hmodel
      exact ⟨out.size, prepare_of_predictOn_ok hok⟩
  obtain ⟨-, -, hinput, -, -, hthreads, -⟩ := prepare_eq_ok.mp hprepare
  obtain ⟨shape, -, hstride, hfills⟩ := exists_usable_of_prepare hprepare
  rw [← hout] at hprepare
  rw [predictOn_of_prepare hprepare, if_neg (by simp [hsums])]
  rw [hstride] at hout
  by_cases hempty : kernel.stride = 0
  · rw [byRow, hempty]
    exact ⟨out, machine.fillRowBlocks_zero threads out⟩
  · refine byRow_ok machine (hfills hempty) hinput.symm hout fun hmany => ?_
    -- Some model has rows that are not empty; it needs the pool as well.
    have hpart : ∃ model ∈ models, model.outputSize 1 config.kind ≠ 0 := by
      by_contra hnone
      have hzero := (outputSize_gather_eq_zero hsums hpairing hcompatible).mpr fun model hmodel =>
        not_not.mp fun hwide => hnone ⟨model, hmodel, hwide⟩
      rw [hstride, Nat.one_mul] at hzero
      exact hempty hzero
    obtain ⟨model, hmodel, hwide⟩ := hpart
    obtain ⟨own, after, hok⟩ := hanswers model hmodel
    rw [hout] at hmany
    exact startPool_of_predictOn_ok hsums hthreads hok hwide hempty hmany

/-- Each row of such a prediction holds the rows of the models side by side. -/
theorem predictOn_gather_rows {answers : List (Array α)} (hsums : config.kind.sums = false)
    (hpairing : ∀ model ∈ models, model.pairing = pairing)
    (hcompatible : ∀ model ∈ models, Compatible info model.info)
    (hanswers : List.Forall₂ (fun model after =>
      ∃ out, (Model.predictOn machine model config input numRow).apply out = (.ok (), after))
      models answers)
    (hok : ((gather pairing info models).refreshed.predictOn machine config input numRow).apply
      out = (.ok (), after)) {r : Nat} (hr : r < numRow) :
    answerRow config.kind r ((gather pairing info models).refreshed, after) =
      (models.zip answers).flatMap (answerRow config.kind r) := by
  by_cases hempty : (gather pairing info models).refreshed.outputSize 1 config.kind = 0
  · have hnone : ∀ (model : Model) (after : Array α), model.outputSize 1 config.kind = 0 →
        answerRow config.kind r (model, after) = [] := by
      intro model after hzero
      rw [answerRow, hzero]
      simp [rowOf]
    rw [hnone _ _ hempty, eq_comm, List.flatMap_eq_nil_iff]
    rintro ⟨model, after⟩ hmem
    exact hnone model after ((outputSize_gather_eq_zero hsums hpairing hcompatible).mp hempty model
      (List.of_mem_zip hmem).1)
  · have hsize : config.kind = .perTree → leafSize info ≠ 0 := leafSize_ne_zero hempty
    obtain ⟨entries, hentries, hflat⟩ := exists_entries hr hsums hsize hpairing hcompatible hanswers
    obtain ⟨own, hown, hrow⟩ := row_of_predictOn_ok hsums hsize hok hr
    rw [refreshed_gather] at hown
    cases hentries.symm.trans hown
    exact hrow.trans hflat

end Gathered

/-- Models of one pairing are put together like lists: to all of their trees with the routing of
these, under the metadata of the first model, and in whatever groups. A limit keeps the first trees
with their routing and nothing else changes, so that the first model can be had back, as it is
stored, and only the last of several limits counts. And where the models agree on what leaves look
at and a prediction that sums nothing goes through for each of them, it does for all of them
together, and the rows of the answers stand side by side. -/
theorem concat_laws {first : Model} {rest : List Model}
    (hpairing : ∀ model ∈ rest, model.pairing = first.pairing)
    (hrouted : ∀ model ∈ first :: rest, model.info.targetId.size = model.numTree ∧
      model.info.classId.size = model.numTree) :
    ∃ total, total = (gather first.pairing first.info (first :: rest)).refreshed ∧
      concat (first :: rest) = .ok total ∧
      (∀ groups : List (List Model), (∀ group ∈ groups, group ≠ []) →
        groups.flatten = first :: rest → groups.mapM concat >>= concat = .ok total) ∧
      (∀ (model : Model) (limit : Nat), 0 < limit → limit ≤ model.numTree →
        model.limitTrees limit = .ok { model with
          trees := model.trees.take limit
          info.targetId := model.info.targetId.take limit
          info.classId := model.info.classId.take limit } ∧
        ∀ smaller, 0 < smaller → smaller ≤ limit →
          (model.limitTrees limit >>= fun limited => limited.limitTrees smaller) =
            model.limitTrees smaller) ∧
      (first.numTree ≠ 0 → total.limitTrees first.numTree = .ok first.refreshed) ∧
      ∀ (machine : Machine) (config : Configuration) (input : Array α) (numRow : Nat)
        (answers : List (Array α)), config.kind.sums = false →
        (∀ model ∈ rest, Compatible first.info model.info) →
        List.Forall₂ (fun model after => ∃ out,
          (Model.predictOn machine model config input numRow).apply out = (.ok (), after))
          (first :: rest) answers →
        ∀ out : Array α, out.size = total.outputSize numRow config.kind →
          ∃ after, (total.predictOn machine config input numRow).apply out = (.ok (), after) ∧
            ∀ r < numRow, answerRow config.kind r (total, after) =
              ((first :: rest).zip answers).flatMap (answerRow config.kind r) := by
  obtain ⟨htarget, hclass⟩ := hrouted first (List.mem_cons_self ..)
  refine ⟨_, rfl, concat_eq hpairing, fun groups hne hsplit => ?_, fun model limit hpos hle => ?_,
    fun hne => limitTrees_gather (Nat.pos_of_ne_zero hne) htarget hclass, ?_⟩
  · rw [concat_groups hne hsplit hpairing, concat_eq hpairing]
  · exact ⟨limitTrees_eq hpos hle, fun smaller hsmaller hlimit =>
      limitTrees_limitTrees hsmaller hlimit hle⟩
  · intro machine config input numRow answers hsums hagree hanswers out hout
    have hall : ∀ model ∈ first :: rest, model.pairing = first.pairing :=
      List.forall_mem_cons.mpr ⟨rfl, hpairing⟩
    have hcompatible : ∀ model ∈ first :: rest, Compatible first.info model.info :=
      List.forall_mem_cons.mpr ⟨⟨rfl, rfl, rfl, rfl⟩, hagree⟩
    have hpredicted : ∀ model ∈ first :: rest, ∃ out after : Array α,
        (model.predictOn machine config input numRow).apply out = (.ok (), after) := by
      intro model hmodel
      obtain ⟨i, hi⟩ := List.getElem?_of_mem hmodel
      obtain ⟨after, -, out, hok⟩ := exists_partner hanswers.flip hi
      exact ⟨out, after, hok⟩
    obtain ⟨after, hok⟩ := predictOn_gather_ok (List.cons_ne_nil first rest) hsums hall hcompatible
      hpredicted hout
    exact ⟨after, hok, fun r hr =>
      predictOn_gather_rows hsums hall hcompatible hanswers hok hr⟩

/-- Two models with two trees each. The second row reaches node 2 of all trees but one, which has a
single leaf. -/
theorem concat_laws_mixed :
    (∀ model ∈ [sample], model.pairing = mixed.pairing) ∧
    (∀ model ∈ [mixed, sample], model.info.targetId.size = model.numTree ∧
      model.info.classId.size = model.numTree) ∧
    ∃ total, concat [mixed, sample] = .ok total ∧ total.limitTrees 2 = .ok mixed.refreshed ∧
      ∃ after, (total.predictOn (.ofCores 4) ⟨.leafId, 0⟩ #[⟨0⟩, Score.one] 2).apply
          (Array.replicate 8 (Score.one : Double)) = (.ok (), after) ∧
        answerRow .leafId 1 (total, after) =
          [(2 : UInt32), 0, 2, 2].map fun leaf => (Numeric.cast leaf : Double) := by
  have hpairing : ∀ model ∈ [sample], model.pairing = mixed.pairing := by
    intro model hmodel
    cases List.mem_singleton.mp hmodel
    rfl
  have hrouted : ∀ model ∈ [mixed, sample], model.info.targetId.size = model.numTree ∧
      model.info.classId.size = model.numTree :=
    List.forall_mem_cons.mpr ⟨⟨rfl, rfl⟩, List.forall_mem_cons.mpr ⟨⟨rfl, rfl⟩, by simp⟩⟩
  refine ⟨hpairing, hrouted, ?_⟩
  obtain ⟨total, htotal, hconcat, -, -, hlimit, hrows⟩ :=
    concat_laws (α := Double) hpairing hrouted
  refine ⟨total, hconcat, hlimit (by decide), ?_⟩
  have hmixed : (mixed.predictOn (.ofCores 4) ⟨.leafId, 0⟩ #[⟨0⟩, (Score.one : Double)] 2).apply
      (Array.replicate 4 (Score.one : Double)) = (.ok (), [(1 : UInt32), 0, 2, 0].toArray.map
        Numeric.cast) := by decide +kernel
  have hsample : (sample.predictOn (.ofCores 4) ⟨.leafId, 0⟩ #[⟨0⟩, (Score.one : Double)] 2).apply
      (Array.replicate 4 (Score.one : Double)) = (.ok (), [(1 : UInt32), 1, 2, 2].toArray.map
        Numeric.cast) := by decide +kernel
  have hagree : ∀ model ∈ [sample], Compatible mixed.info model.info := by
    intro model hmodel
    cases List.mem_singleton.mp hmodel
    exact ⟨rfl, rfl, rfl, rfl⟩
  have hsize : (Array.replicate 8 (Score.one : Double)).size = total.outputSize 2 .leafId := by
    rw [htotal]
    decide +kernel
  obtain ⟨after, hok, hrow⟩ := hrows (.ofCores 4) ⟨.leafId, 0⟩ #[⟨0⟩, Score.one] 2 _ rfl hagree
    (.cons ⟨_, hmixed⟩ (.cons ⟨_, hsample⟩ .nil)) _ hsize
  exact ⟨after, hok, (hrow 1 (by decide)).trans (by decide +kernel)⟩

end Model

end Arboretum

import Arboretum.Proofs.Predict.Outcome

/-!
Predicted scores are those of the formula. Blocks, strides, the buffer beside the output and its
transposition leave no trace in them.
-/

namespace Arboretum

open Predict

variable {α : Type} [Score α]

private theorem PredictKind.ne_leafId {kind : PredictKind} (h : kind.sums = true) :
    kind ≠ .leafId := by
  rintro rfl
  cases h

namespace Model

variable {model : Model} {kind : PredictKind} {shape : LeafShape}

/-- The kinds that sum scores ask for the most. -/
theorem Usable.of_sums (h : model.Usable kind shape) (hsums : kind.sums = true)
    (kind' : PredictKind) : model.Usable kind' shape where
  numTarget_pos := h.numTarget_pos
  numClass_size := h.numClass_size
  numClass_pos := h.numClass_pos
  leafVectorShape_eq := h.leafVectorShape_eq
  targetId_size := h.targetId_size
  classId_size := h.classId_size
  baseScores_size _ := h.baseScores_size hsums
  routed _ := h.routed hsums
  fits index tree htree := by
    have hfits := h.fits index tree htree
    refine ⟨hfits.nonempty, hfits.valid, fun nid node hnode => ?_⟩
    have hnode := hfits.node nid node hnode
    exact ⟨fun hleaf _ => hnode.vector_size hleaf (PredictKind.ne_leafId hsums),
      fun hleaf _ => hnode.scalar_routing hleaf hsums, hnode.feature_lt, hnode.comparison⟩

private theorem le_outputSize (h : model.Usable kind shape) (hsums : kind.sums = true)
    (numRow : Nat) :
    numRow ≤ model.outputSize numRow kind := by
  rw [h.outputSize_sums hsums, h.stride_eq]
  have htarget := h.numTarget_pos
  rw [UInt32.le_iff_toNat_le] at htarget
  exact Nat.le_mul_of_pos_right _ (Nat.mul_pos htarget h.maxNumClass_pos)

/-- A prediction that sums scores ends well and puts, for every target and every row, the scores of
the formula after post-processing at their places. -/
theorem predictOn_sums (machine : Machine) (threads : Int32) (input out : Array α) (numRow : Nat)
    (h : model.Usable kind shape) (hsums : kind.sums = true) {post : Option Postprocessor}
    (hpost : model.postprocessorFor kind = .ok post)
    (htype : Numeric.valueType α = model.pairing.leafType) (hfeature : 0 ≤ model.info.numFeature)
    (hinput : input.size = numRow * model.info.numFeature.toInt.toNat)
    (hout : out.size = model.outputSize numRow kind) (hsmall : out.size < 2 ^ 63)
    (hthreads : -1 ≤ threads) (hpool : ∀ workers, machine.startPool workers = .ok ()) :
    ∃ after, (model.predictOn machine ⟨kind, threads⟩ input numRow).apply out = (.ok (), after) ∧
      ∀ (t r : Nat) (n : UInt32), model.info.numClass[t]? = some n → r < numRow →
        ∃ raw, (List.range n.toNat).mapM
            (model.rawScore? (rowOf input model.info.numFeature.toInt.toNat r) t) = some raw ∧
          ∀ c < n.toNat, after[(t * numRow + r) * model.maxNumClass.toNat + c]? =
            (postprocessed post raw)[c]? := by
  obtain ⟨workers, hworkers⟩ :=
    Configuration.resolveThreads_ok ⟨kind, threads⟩ machine.cores hthreads
  obtain ⟨counts, hcounts, hkernel⟩ := h.kernel?_sums (α := α) hsums post
  have hrows : numRow < 2 ^ 63 := by
    have := le_outputSize h hsums numRow
    omega
  have hprepare := prepare_eq_ok.mpr ⟨htype, hfeature, hinput.symm, hout,
    check_eq_ok.mpr ⟨shape, h⟩, hworkers, .inr hrows, post, hpost, hkernel⟩
  rcases predictOn_outcome hprepare with ⟨after, hok, -, hplaces⟩ | ⟨cause, hfailed, -⟩
  · refine ⟨after, hok, fun t r n hn hr => ?_⟩
    obtain ⟨scores, hscores, -, hspec, -⟩ :=
      scoreRow?_spec h hsums hcounts post (size_rowOf hinput hr)
    obtain ⟨raw, hraw, hentries⟩ := hspec t n hn
    refine ⟨raw, hraw, fun c hc => ?_⟩
    obtain ⟨ht, -⟩ := Array.getElem?_eq_some_iff.mp hn
    rw [h.numClass_size] at ht
    rw [hplaces hsums t ht r hr c (Nat.lt_of_lt_of_le hc (h.count_le hn)), RowKernel.answer]
    dsimp only
    rw [hscores, Option.getD_some, Array.getElem?_toList, hentries c hc]
  · rw [hpool] at hfailed
    cases hfailed

/-- What a prediction puts into its output is the formula: for raw scores at every class of every
target and row, and for processed scores the post-processing of the raw ones, target by target. -/
theorem predictOn_eq_formula (machine : Machine) (model : Model) (threads : Int32)
    (input out : Array α) (numRow : Nat) (hcheck : model.check .raw = .ok ())
    (htype : Numeric.valueType α = model.pairing.leafType) (hfeature : 0 ≤ model.info.numFeature)
    (hinput : input.size = numRow * model.info.numFeature.toInt.toNat)
    (hout : out.size = model.outputSize numRow .raw) (hsmall : out.size < 2 ^ 63)
    (hthreads : -1 ≤ threads) (hpool : ∀ workers, machine.startPool workers = .ok ()) :
    (∃ after, (model.predictOn machine ⟨.raw, threads⟩ input numRow).apply out = (.ok (), after) ∧
      ∀ (t r c : Nat) (n : UInt32), model.info.numClass[t]? = some n → r < numRow → c < n.toNat →
        ∃ score, model.rawScore? (rowOf input model.info.numFeature.toInt.toNat r) t c =
            some score ∧
          after[(t * numRow + r) * model.maxNumClass.toNat + c]? = some score) ∧
    ∀ post, model.info.postprocessing = .ok post →
      ∃ after, (model.predictOn machine ⟨.processed, threads⟩ input numRow).apply out =
          (.ok (), after) ∧
        ∀ (t r : Nat) (n : UInt32), model.info.numClass[t]? = some n → r < numRow →
          ∃ raw, (List.range n.toNat).mapM
              (model.rawScore? (rowOf input model.info.numFeature.toInt.toNat r) t) = some raw ∧
            ∀ c < n.toNat, after[(t * numRow + r) * model.maxNumClass.toNat + c]? =
              (post.apply raw)[c]? := by
  obtain ⟨shape, h⟩ := check_eq_ok.mp hcheck
  constructor
  · obtain ⟨after, hok, hspec⟩ := predictOn_sums machine threads input out numRow h rfl rfl htype
      hfeature hinput hout hsmall hthreads hpool
    refine ⟨after, hok, fun t r c n hn hr hc => ?_⟩
    obtain ⟨raw, hraw, hplaces⟩ := hspec t r n hn hr
    have hscore := getElem?_of_mapM hraw c
    rw [List.getElem?_range hc, Option.bind_some] at hscore
    have hlength := length_of_mapM hraw
    rw [List.length_range] at hlength
    rw [hplaces c hc, postprocessed, ← hscore]
    exact ⟨raw[c], List.getElem?_eq_getElem _, List.getElem?_eq_getElem _⟩
  · intro post hpost
    have hprocessed : model.postprocessorFor .processed = .ok (some post) := by
      rw [postprocessorFor, hpost]
      rfl
    exact predictOn_sums machine threads input out numRow (h.of_sums rfl .processed) rfl
      hprocessed htype hfeature hinput hout hsmall hthreads hpool

section Unconverted

variable {p : Precision} {trees : Array (Tree p.Word p.Word)} {doubles : Array (Tree Double Double)}
  {info : ModelInfo} {version : FormatVersion} {optionalFields : Int32}

/-- Outputs of the type of the scores are added as they are. -/
theorem summed?_words (row : Array p.Word) (t c : Nat) :
    let model : Model := ⟨⟨p, false⟩, trees, info, version, optionalFields⟩
    model.summed? row t c = trees.toList.zipIdx.foldlM
      (fun sum entry => (model.feeds? entry.2 t c).elim (some sum) fun place =>
        (entry.1.contribution? row place).map (Score.add sum)) Numeric.zero := by
  intro model
  have hstep : ∀ (sum : p.Word) (entry : Tree p.Word p.Word × Nat),
      model.addFed? row t c sum entry = (model.feeds? entry.2 t c).elim (some sum) fun place =>
        (entry.1.contribution? row place).map (Score.add sum) := by
    intro sum entry
    unfold addFed?
    cases model.feeds? entry.2 t c with
    | none => rfl
    | some place =>
      simp only [Numeric.cast_self, Option.elim_some]
      cases entry.1.contribution? row place <;> rfl
  exact congrArg (fun step => trees.toList.zipIdx.foldlM step Numeric.zero) (funext₂ hstep)

/-- In double precision a score is made of outputs and base scores as they are. -/
theorem rawScore?_doubles (row : Array Double) (t c : Nat) :
    let model : Model := ⟨⟨.double, false⟩, doubles, info, version, optionalFields⟩
    model.rawScore? row t c = do
      let sum ← model.summed? row t c
      let base ← info.baseScores[t * model.maxNumClass.toNat + c]?
      let count := model.feedCount t c
      return Score.add
        (if info.averageTreeOutput ∧ 0 < count then Score.div sum (FloatWord.ofNat count) else sum)
        base := by
  simp only [rawScore?, Numeric.cast_self]

end Unconverted

/-- A test of the first feature with four numbers at each of its leaves. -/
def sampleTree (low high : Double) : Tree Double Double :=
  ((do
    Tree.addChildren 0
    Tree.setNumericalSplit 0 0 Score.one true .less
    Tree.setLeafVector 1 #[low, low, low, low]
    Tree.setLeafVector 2 #[high, low, high, low] : Edit (Tree Double Double) Unit).apply
      Tree.singleLeaf).2

/-- Two such trees, averaged, for two targets with two classes and one. -/
def sample : Model :=
  { create ⟨.double, false⟩ with
    trees := #[sampleTree Score.one ⟨0⟩, sampleTree ⟨0⟩ Score.one]
    info := { ModelInfo.initial with
      numFeature := 1
      averageTreeOutput := true
      numTarget := 2
      numClass := #[2, 1]
      leafVectorShape := #[2, 2]
      targetId := #[-1, -1]
      classId := #[-1, -1]
      baseScores := #[⟨0⟩, Score.one, ⟨0⟩, Score.one] } }

/-- Either row gets a half from one of the trees at every class, and the second class of the first
target starts from one. -/
theorem predictOn_eq_formula_sample :
    sample.check .raw = .ok () ∧
    (∃ after, (sample.predictOn (.ofCores 4) ⟨.raw, 0⟩ #[⟨0⟩, Score.one] 2).apply
        (Array.replicate 8 (⟨0⟩ : Double)) = (.ok (), after) ∧
      (∀ (t r c : Nat) (n : UInt32), sample.info.numClass[t]? = some n → r < 2 → c < n.toNat →
        ∃ score, sample.rawScore? (rowOf #[⟨0⟩, Score.one] sample.info.numFeature.toInt.toNat r)
            t c = some score ∧
          after[(t * 2 + r) * sample.maxNumClass.toNat + c]? = some score) ∧
      ∀ r < 2, after[r * 2]? = some ⟨0x3FE0000000000000⟩ ∧
        after[r * 2 + 1]? = some ⟨0x3FF8000000000000⟩ ∧
        after[(2 + r) * 2]? = some ⟨0x3FE0000000000000⟩) ∧
    sample.info.postprocessing = .ok ⟨.identity, Score.one, Score.one⟩ := by
  have hcheck : sample.check .raw = .ok () := by decide +kernel
  have htype : Numeric.valueType Double = sample.pairing.leafType := rfl
  have hfeature : 0 ≤ sample.info.numFeature := by decide
  have hinput : (#[⟨0⟩, Score.one] : Array Double).size =
      2 * sample.info.numFeature.toInt.toNat := rfl
  have hout : (Array.replicate 8 (⟨0⟩ : Double)).size = sample.outputSize 2 .raw := by
    decide +kernel
  have hsmall : (Array.replicate 8 (⟨0⟩ : Double)).size < 2 ^ 63 := by
    rw [Array.size_replicate]
    decide
  obtain ⟨after, happly, hscores⟩ := (predictOn_eq_formula (.ofCores 4) sample 0 _ _ 2 hcheck
    htype hfeature hinput hout hsmall (by decide) fun _ => rfl).1
  refine ⟨hcheck, ⟨after, happly, hscores, fun r hr => ?_⟩, by decide +kernel⟩
  have hplace : ∀ (t c : Nat) (n : UInt32) (score : Double), sample.info.numClass[t]? = some n →
      c < n.toNat →
      (∀ r < 2, sample.rawScore? (rowOf #[⟨0⟩, Score.one] sample.info.numFeature.toInt.toNat r)
        t c = some score) → after[(t * 2 + r) * 2 + c]? = some score := by
    intro t c n score hn hc hscore
    obtain ⟨score', hraw, hplace⟩ := hscores t r c n hn hr hc
    cases hraw.symm.trans (hscore r hr)
    exact hplace
  refine ⟨?_, ?_, ?_⟩
  · simpa using hplace 0 0 2 ⟨0x3FE0000000000000⟩ rfl (by decide) (by decide +kernel)
  · simpa using hplace 0 1 2 ⟨0x3FF8000000000000⟩ rfl (by decide) (by decide +kernel)
  · exact hplace 1 0 1 _ rfl (by decide) (by decide +kernel)

end Model

end Arboretum

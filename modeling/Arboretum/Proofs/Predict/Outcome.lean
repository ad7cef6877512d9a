import Arboretum.Proofs.Predict.Answer
import Arboretum.Proofs.Predict.Errors

/-!
How a prediction ends. It writes only after everything is checked and looked up, and then either
fills the whole buffer or, where the pool of workers does not start, leaves it alone.
-/

namespace Arboretum

open Predict

theorem Configuration.resolveThreads_ok (config : Configuration) (cores : Nat)
    (h : -1 ≤ config.threads) : ∃ threads, config.resolveThreads cores = .ok threads := by
  rw [resolveThreads, validate, Arboretum.resolveThreads, require_eq_ok.mpr h, ok_bind]
  by_cases hall : config.threads = 0
  · exact ⟨_, if_pos hall⟩
  · by_cases hone : config.threads = -1
    · exact ⟨_, by rw [if_neg hall, if_pos hone]⟩
    · have hpos : 0 < config.threads := by
        rw [← Int32.toInt_inj] at hall hone
        rw [Int32.le_iff_toInt_le] at h
        rw [Int32.lt_iff_toInt_lt]
        have hminus : (-1 : Int32).toInt = -1 := by decide
        rw [hminus] at h hone
        rw [Int32.toInt_zero] at hall ⊢
        omega
      exact ⟨_, by rw [if_neg hall, if_neg hone, if_pos hpos]⟩

variable {α : Type} [Score α] {machine : Machine} {model : Model} {config : Configuration}
  {input : Array α} {numRow : Nat}

namespace Model

/-- What has to hold for a prediction to come to its computation. -/
theorem prepare_eq_ok {outSize threads : Nat} {kernel : RowKernel α} :
    model.prepare machine config input numRow outSize = .ok (threads, kernel) ↔
      Numeric.valueType α = model.pairing.leafType ∧ 0 ≤ model.info.numFeature ∧
      numRow * model.info.numFeature.toInt.toNat = input.size ∧
      outSize = model.outputSize numRow config.kind ∧ model.check config.kind = .ok () ∧
      config.resolveThreads machine.cores = .ok threads ∧
      (model.info.numFeature.toInt.toNat ≠ 0 ∨ numRow < 2 ^ 63) ∧
      ∃ post, model.postprocessorFor config.kind = .ok post ∧
        kernel? model config.kind post = some kernel := by
  have hfound : ∀ post, found (kernel? model config.kind post) = .ok kernel ↔
      kernel? model config.kind post = some kernel := by
    intro post
    cases (kernel? model config.kind post : Option (RowKernel α)) with
    | none => simp [found]
    | some kernel' => simp [found]
  simp only [prepare, then_eq_ok, require_eq_ok]
  refine and_congr_right' (and_congr_right' (and_congr_right' (and_congr_right'
    (and_congr_right' ?_))))
  rw [bind_eq_ok]
  simp only [then_eq_ok, require_eq_ok]
  constructor
  · rintro ⟨workers, hthreads, hrows, h⟩
    obtain ⟨post, hpost, h⟩ := bind_eq_ok.mp h
    obtain ⟨found, hkernel, h⟩ := bind_eq_ok.mp h
    cases h
    exact ⟨hthreads, hrows, post, hpost, (hfound post).mp hkernel⟩
  · rintro ⟨hthreads, hrows, post, hpost, hkernel⟩
    refine ⟨threads, hthreads, hrows, ?_⟩
    rw [hpost, ok_bind, (hfound post).mpr hkernel]
    rfl

/-- What is prepared is a computation that fits a model that passed the check. -/
theorem exists_usable_of_prepare {outSize threads : Nat} {kernel : RowKernel α}
    (h : model.prepare machine config input numRow outSize = .ok (threads, kernel)) :
    ∃ shape, model.Usable config.kind shape ∧
      (∀ n, model.outputSize n config.kind = n * kernel.stride) ∧
      (kernel.stride ≠ 0 → kernel.Fills model.info.numFeature.toInt.toNat) := by
  obtain ⟨-, -, -, -, hcheck, -, -, post, -, hkernel⟩ := prepare_eq_ok.mp h
  obtain ⟨shape, husable⟩ := check_eq_ok.mp hcheck
  obtain ⟨kernel', hkernel', hsize, hfills⟩ := husable.exists_kernel (α := α) post
  cases hkernel.symm.trans hkernel'
  exact ⟨shape, husable, hsize, hfills⟩

/-- No error before the computation is the failure of a look-up. -/
theorem prepare_inBounds (outSize : Nat) :
    InBounds (model.prepare machine config input numRow outSize) := by
  rw [prepare]
  refine .bind (.require (by simp)) fun _ => .bind (.require (by simp)) fun _ =>
    .bind (.require (by simp)) fun _ => .bind (.require (by simp)) fun _ =>
    .bind_of_ok (model.check_inBounds _) fun _ hcheck =>
    .bind (config.resolveThreads_inBounds _) fun _ => .bind (.require (by simp)) fun _ =>
    .bind (model.postprocessorFor_inBounds _) fun post => ?_
  obtain ⟨shape, h⟩ := check_eq_ok.mp hcheck
  obtain ⟨kernel, hkernel, -⟩ := h.exists_kernel (α := α) post
  rw [hkernel]
  exact .ok _

theorem predictOn_error {out : Array α} {e : Error}
    (h : model.prepare machine config input numRow out.size = .error e) :
    (model.predictOn machine config input numRow).apply out = (.error e, out) := by
  rw [predictOn]
  simp only [Edit.apply_bind, Edit.apply_get, h, Edit.apply_lift]

theorem prepare_of_predictOn_ok {out after : Array α}
    (h : (model.predictOn machine config input numRow).apply out = (.ok (), after)) :
    ∃ threads kernel,
      model.prepare machine config input numRow out.size = .ok (threads, kernel) := by
  cases hprepare : model.prepare machine config input numRow out.size with
  | error e =>
    rw [predictOn_error hprepare] at h
    cases h
  | ok prepared => exact ⟨prepared.1, prepared.2, rfl⟩

theorem predictOn_of_prepare {out : Array α} {threads : Nat} {kernel : RowKernel α}
    (h : model.prepare machine config input numRow out.size = .ok (threads, kernel)) :
    (model.predictOn machine config input numRow).apply out =
      (if config.kind.sums ∧ model.info.numTarget ≠ 1 then
        byTarget machine threads (.ofInfo model.info) input model.info.numFeature.toInt.toNat
          numRow kernel
      else byRow machine threads input model.info.numFeature.toInt.toNat kernel).apply out := by
  rw [predictOn]
  simp only [Edit.apply_bind, Edit.apply_get, h, Edit.apply_lift]

/-- A prediction that comes to its computation fills the buffer with what the computation returns
for each row, or leaves it alone where the pool does not start. Scores for several targets come in
the order target, row, class. -/
theorem predictOn_outcome {out : Array α} {threads : Nat} {kernel : RowKernel α}
    (h : model.prepare machine config input numRow out.size = .ok (threads, kernel)) :
    (∃ after, (model.predictOn machine config input numRow).apply out = (.ok (), after) ∧
        after.size = out.size ∧
        (config.kind.sums = true → ∀ t < model.info.numTarget.toNat, ∀ r < numRow,
          ∀ c < model.maxNumClass.toNat,
            after[(t * numRow + r) * model.maxNumClass.toNat + c]? =
              (kernel.answer input model.info.numFeature.toInt.toNat r)[
                t * model.maxNumClass.toNat + c]?)) ∨
      ∃ cause, machine.startPool threads = .error cause ∧
        (model.predictOn machine config input numRow).apply out =
          (.error (.threading cause), out) := by
  obtain ⟨-, -, hinput, hout, -, -, -, post, -, hkernel⟩ := prepare_eq_ok.mp h
  obtain ⟨shape, husable, hsize, hfills⟩ := exists_usable_of_prepare h
  rw [hsize] at hout
  rw [predictOn_of_prepare h]
  have hstride : config.kind.sums = true →
      kernel.stride = (ScoreLayout.ofInfo model.info).stride := by
    intro hsums
    obtain ⟨counts, -, hk⟩ := husable.kernel?_sums (α := α) hsums post
    cases hkernel.symm.trans hk
    rfl
  by_cases htargets : config.kind.sums ∧ model.info.numTarget ≠ 1
  · rw [if_pos htargets]
    rcases byTarget_outcome machine threads (hstride htargets.1) hfills hinput.symm out hout with
      ⟨after, hok, hafter, hplaces⟩ | herror
    · refine .inl ⟨after, hok, hafter, fun _ => ?_⟩
      rw [husable.numTarget_eq] at hplaces
      rw [husable.layout_eq] at hplaces
      exact hplaces
    · exact .inr herror
  · rw [if_neg htargets]
    rcases byRow_outcome machine threads hfills hinput.symm out hout with
      ⟨after, hok, hafter, hplaces⟩ | herror
    · refine .inl ⟨after, hok, hafter, fun hsums t ht r hr c hc => ?_⟩
      have hone : model.info.numTarget = 1 := by
        by_contra hne
        exact htargets ⟨hsums, hne⟩
      rw [hone] at ht
      have hzero : t = 0 := Nat.lt_one_iff.mp ht
      have hclasses : kernel.stride = model.maxNumClass.toNat := by
        rw [hstride hsums, husable.stride_eq, hone]
        exact Nat.one_mul _
      rw [hzero, Nat.zero_mul, Nat.zero_add, Nat.zero_mul, Nat.zero_add]
      rw [hclasses] at hplaces
      exact hplaces r hr c hc
    · exact .inr herror

/-- A prediction whose request fits a model that passed the check ends well. -/
theorem predictOn_ok {out : Array α} (hcheck : model.check config.kind = .ok ())
    {post : Option Postprocessor} (hpost : model.postprocessorFor config.kind = .ok post)
    (htype : Numeric.valueType α = model.pairing.leafType) (hfeature : 0 ≤ model.info.numFeature)
    (hinput : input.size = numRow * model.info.numFeature.toInt.toNat)
    (hout : out.size = model.outputSize numRow config.kind)
    (hrows : model.info.numFeature.toInt.toNat ≠ 0 ∨ numRow < 2 ^ 63)
    (hthreads : -1 ≤ config.threads) (hpool : ∀ workers, machine.startPool workers = .ok ()) :
    ∃ after, (model.predictOn machine config input numRow).apply out = (.ok (), after) := by
  obtain ⟨shape, h⟩ := check_eq_ok.mp hcheck
  obtain ⟨workers, hworkers⟩ := config.resolveThreads_ok machine.cores hthreads
  obtain ⟨kernel, hkernel, -⟩ := h.exists_kernel (α := α) post
  have hprepare := prepare_eq_ok.mpr ⟨htype, hfeature, hinput.symm, hout, hcheck, hworkers, hrows,
    post, hpost, hkernel⟩
  rcases predictOn_outcome hprepare with ⟨after, hok, -⟩ | ⟨cause, hfailed, -⟩
  · exact ⟨after, hok⟩
  · rw [hpool] at hfailed
    cases hfailed

theorem check_of_predictOn_ok {out after : Array α}
    (h : (model.predictOn machine config input numRow).apply out = (.ok (), after)) :
    model.check config.kind = .ok () := by
  obtain ⟨threads, kernel, hprepare⟩ := prepare_of_predictOn_ok h
  obtain ⟨-, -, -, -, hcheck, -⟩ := prepare_eq_ok.mp hprepare
  exact hcheck

end Model

end Arboretum

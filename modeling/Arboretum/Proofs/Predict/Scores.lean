import Arboretum.Proofs.Predict.Sums

/-!
The finished scores of a row. Averaging, base scores and post-processing of one target touch only
its own classes, so the targets of a row can be finished one after the other.
-/

namespace Arboretum

open Predict

variable {α β : Type}

private theorem mapM_congr {f g : β → Option α} {l : List β} (h : ∀ b ∈ l, f b = g b) :
    l.mapM f = l.mapM g := by
  induction l with
  | nil => rfl
  | cons b l ih =>
    rw [List.forall_mem_cons] at h
    rw [List.mapM_cons, List.mapM_cons, h.1, ih h.2]

theorem exists_mapM {f : β → Option α} {l : List β} (h : ∀ b ∈ l, ∃ a, f b = some a) :
    ∃ as, l.mapM f = some as := by
  induction l with
  | nil => exact ⟨[], rfl⟩
  | cons b l ih =>
    rw [List.forall_mem_cons] at h
    obtain ⟨a, ha⟩ := h.1
    obtain ⟨as, has⟩ := ih h.2
    refine ⟨a :: as, ?_⟩
    rw [List.mapM_cons, ha, has]
    rfl

theorem getElem?_of_mapM {f : β → Option α} {l : List β} {as : List α} (h : l.mapM f = some as)
    (i : Nat) : as[i]? = l[i]?.bind f := by
  induction l generalizing as i with
  | nil =>
    cases h
    rfl
  | cons b l ih =>
    rw [List.mapM_cons] at h
    simp only [Option.bind_eq_bind, Option.bind_eq_some_iff, Option.pure_def,
      Option.some.injEq] at h
    obtain ⟨a, ha, rest, hrest, rfl⟩ := h
    cases i with
    | zero => simp [ha]
    | succ i => simpa using ih hrest i

theorem length_of_mapM {f : β → Option α} {l : List β} {as : List α} (h : l.mapM f = some as) :
    as.length = l.length := by
  induction l generalizing as with
  | nil =>
    cases h
    rfl
  | cons b l ih =>
    rw [List.mapM_cons] at h
    simp only [Option.bind_eq_bind, Option.bind_eq_some_iff, Option.pure_def,
      Option.some.injEq] at h
    obtain ⟨a, -, rest, hrest, rfl⟩ := h
    rw [List.length_cons, List.length_cons, ih hrest]

theorem mem_of_mapM {f : β → Option α} {l : List β} {as : List α} (h : l.mapM f = some as) {a : α}
    (ha : a ∈ as) : ∃ b ∈ l, f b = some a := by
  obtain ⟨i, hi⟩ := List.getElem?_of_mem ha
  rw [getElem?_of_mapM h, Option.bind_eq_some_iff] at hi
  obtain ⟨b, hb, hf⟩ := hi
  exact ⟨b, List.mem_of_getElem? hb, hf⟩

private theorem foldl_set (values : List α) (first k : Nat) (entries : Array α) :
    ((values.zipIdx k).foldl (fun entries (value, i) =>
        entries.setIfInBounds (first + i) value) entries).size = entries.size ∧
      ∀ i, ((values.zipIdx k).foldl (fun entries (value, i) =>
          entries.setIfInBounds (first + i) value) entries)[i]? =
        if first + k ≤ i ∧ i < first + k + values.length ∧ i < entries.size then
          values[i - (first + k)]?
        else entries[i]? := by
  induction values generalizing k entries with
  | nil =>
    refine ⟨rfl, fun i => ?_⟩
    rw [if_neg]
    · rfl
    · simp only [List.length_nil]
      omega
  | cons value values ih =>
    obtain ⟨hsize, hget⟩ := ih (k + 1) (entries.setIfInBounds (first + k) value)
    rw [List.zipIdx_cons, List.foldl_cons]
    refine ⟨by rw [hsize, Array.size_setIfInBounds], fun i => ?_⟩
    rw [hget, Array.size_setIfInBounds, List.length_cons, Array.getElem?_setIfInBounds]
    by_cases hi : first + k = i
    · -- The first value is not written over by the rest.
      subst hi
      rw [if_neg (by omega), if_pos rfl]
      by_cases hlt : first + k < entries.size
      · rw [if_pos hlt, if_pos (by omega), Nat.sub_self, List.getElem?_cons_zero]
      · rw [if_neg hlt, if_neg (by omega), Array.getElem?_eq_none (by omega)]
    · rw [if_neg hi]
      by_cases hin : first + (k + 1) ≤ i ∧ i < first + (k + 1) + values.length ∧ i < entries.size
      · obtain ⟨j, hj⟩ : ∃ j, i - (first + k) = j + 1 := ⟨i - (first + k) - 1, by omega⟩
        rw [if_pos hin, if_pos (by omega), hj, List.getElem?_cons_succ]
        congr 1
        omega
      · rw [if_neg hin, if_neg (by omega)]

namespace Postprocessor

variable [Score α]

private theorem length_apply (p : Postprocessor) (scores : List α) :
    (p.apply scores).length = scores.length := by
  rw [apply]
  cases p.kind with
  | softmax =>
    cases scores with
    | nil => rfl
    | cons first rest => simp [softmax]
  | _ => simp

end Postprocessor

def postprocessed [Score α] (post : Option Postprocessor) (raw : List α) : List α :=
  match post with
  | none => raw
  | some post => post.apply raw

private theorem length_postprocessed [Score α] (post : Option Postprocessor) (raw : List α) :
    (postprocessed post raw).length = raw.length := by
  cases post with
  | none => rfl
  | some post => exact post.length_apply raw

variable [Score α] {model : Model} {kind : PredictKind} {shape : LeafShape}

/-- Counts of trees for the averages that the model asks for, if it asks for any. -/
def CountsFit (model : Model) (counts : Option (Array Nat)) : Prop :=
  if model.info.averageTreeOutput then
    ∃ entries, counts = some entries ∧ ∀ (t : Nat) (n : UInt32) (c : Nat),
      model.info.numClass[t]? = some n → c < n.toNat →
      entries[t * model.maxNumClass.toNat + c]? = some (model.feedCount t c)
  else counts = none

/-- Scores that hold, at the classes of some targets, the sums of the formula. -/
def HoldSums (model : Model) (row scores : Array α) (first : Nat) : Prop :=
  ∀ (t : Nat) (n : UInt32) (c : Nat), first ≤ t → model.info.numClass[t]? = some n →
    c < n.toNat → ∃ y, model.summed? row t c = some y ∧
      scores[t * model.maxNumClass.toNat + c]? = some y

theorem finishScore?_eq (h : model.Usable kind shape) (hsums : kind.sums = true)
    {counts : Option (Array Nat)} (hcounts : CountsFit model counts) {row scores : Array α}
    {t c : Nat} {n : UInt32} {y : α} (hn : model.info.numClass[t]? = some n) (hc : c < n.toNat)
    (hy : model.summed? row t c = some y)
    (hscore : scores[t * model.maxNumClass.toNat + c]? = some y) :
    finishScore? model.info counts scores (t * model.maxNumClass.toNat + c) =
        model.rawScore? row t c ∧
      ∃ score, model.rawScore? row t c = some score := by
  have hsize : model.info.baseScores.size = (ScoreLayout.ofInfo model.info).stride := by
    rw [h.baseScores_size hsums, ScoreLayout.stride, h.numTarget_eq, h.layout_eq]
  obtain ⟨base, hbase⟩ := exists_entry hsize (h.place_lt hn hc)
  unfold CountsFit at hcounts
  cases haverage : model.info.averageTreeOutput with
  | false =>
    rw [haverage, if_neg Bool.false_ne_true] at hcounts
    subst hcounts
    simp only [finishScore?, Model.rawScore?, hscore, hy, hbase, haverage, averaged,
      Option.bind_eq_bind, Option.bind_some, Option.mapM_none, Option.pure_def,
      Bool.false_eq_true, false_and, if_false, true_and, Option.some.injEq, exists_eq']
  | true =>
    rw [haverage, if_pos rfl] at hcounts
    obtain ⟨entries, rfl, hentries⟩ := hcounts
    simp only [finishScore?, Model.rawScore?, hscore, hy, hbase, haverage, Option.bind_eq_bind,
      Option.bind_some, Option.mapM_some, hentries t n c hn hc, Option.map_eq_map, Option.map_some,
      Option.pure_def, true_and, Option.some.injEq, exists_eq', and_true]
    cases model.feedCount t c with
    | zero => rfl
    | succ count => simp [averaged]

/-- Finishing a target changes its own classes, as the formula says, and nothing else. -/
theorem finishTarget?_spec (h : model.Usable kind shape) (hsums : kind.sums = true)
    {counts : Option (Array Nat)} (hcounts : CountsFit model counts) (post : Option Postprocessor)
    {row scores : Array α} (hsize : scores.size = (ScoreLayout.ofInfo model.info).stride) {t : Nat}
    {n : UInt32} (hn : model.info.numClass[t]? = some n) (hsum : HoldSums model row scores t) :
    ∃ raw after, (List.range n.toNat).mapM (model.rawScore? row t) = some raw ∧
      finishTarget? (.ofInfo model.info) model.info counts post scores n t = some after ∧
      after.size = (ScoreLayout.ofInfo model.info).stride ∧
      (∀ i, i < t * model.maxNumClass.toNat ∨ t * model.maxNumClass.toNat + n.toNat ≤ i →
        after[i]? = scores[i]?) ∧
      ∀ c < n.toNat, after[t * model.maxNumClass.toNat + c]? = (postprocessed post raw)[c]? := by
  have hscores : ∀ c ∈ List.range n.toNat,
      finishScore? model.info counts scores (t * model.maxNumClass.toNat + c) =
          model.rawScore? row t c ∧
        ∃ score, model.rawScore? row t c = some score := by
    intro c hc
    rw [List.mem_range] at hc
    obtain ⟨y, hy, hplace⟩ := hsum t n c (Nat.le_refl t) hn hc
    exact finishScore?_eq h hsums hcounts hn hc hy hplace
  obtain ⟨raw, hraw⟩ := exists_mapM fun c hc => (hscores c hc).2
  have hlength := length_of_mapM hraw
  rw [List.length_range] at hlength
  have hfinished := mapM_congr fun c hc => (hscores c hc).1
  obtain ⟨hkeepSize, hget⟩ := foldl_set (postprocessed post raw)
    (t * model.maxNumClass.toNat) 0 scores
  rw [length_postprocessed, hlength, Nat.add_zero] at hget
  refine ⟨raw, _, hraw, ?_, hkeepSize.trans hsize, ?_, ?_⟩
  · rw [finishTarget?, h.layout_eq]
    simp only [hfinished, hraw, Option.bind_eq_bind, Option.bind_some, Option.pure_def]
    rfl
  · intro i hi
    rw [hget, if_neg (by omega)]
  · intro c hc
    have hlt := h.place_lt hn hc
    rw [hget, if_pos (by omega), Nat.add_sub_cancel_left]

def Outside (model : Model) (classCounts : List UInt32) (first place : Nat) : Prop :=
  ∀ (i : Nat) (n : UInt32), classCounts[i]? = some n →
    place < (first + i) * model.maxNumClass.toNat ∨
      (first + i) * model.maxNumClass.toNat + n.toNat ≤ place

/-- Finishing the targets from one on leaves everything outside their classes alone. -/
theorem finishTargets_spec (h : model.Usable kind shape) (hsums : kind.sums = true)
    {counts : Option (Array Nat)} (hcounts : CountsFit model counts) (post : Option Postprocessor)
    {row : Array α} (classCounts : List UInt32) (first : Nat)
    (hclasses : ∀ (i : Nat) (n : UInt32), classCounts[i]? = some n →
      model.info.numClass[first + i]? = some n)
    (scores : Array α) (hsize : scores.size = (ScoreLayout.ofInfo model.info).stride)
    (hsum : HoldSums model row scores first) :
    ∃ after, (classCounts.zipIdx first).foldlM (fun scores (count, target) =>
        finishTarget? (.ofInfo model.info) model.info counts post scores count target) scores =
          some after ∧
      after.size = (ScoreLayout.ofInfo model.info).stride ∧
      (∀ place, Outside model classCounts first place → after[place]? = scores[place]?) ∧
      ∀ (i : Nat) (n : UInt32), classCounts[i]? = some n →
        ∃ raw, (List.range n.toNat).mapM (model.rawScore? row (first + i)) = some raw ∧
          ∀ c < n.toNat,
            after[(first + i) * model.maxNumClass.toNat + c]? = (postprocessed post raw)[c]? := by
  induction classCounts generalizing first scores with
  | nil => exact ⟨scores, rfl, hsize, fun _ _ => rfl, by simp⟩
  | cons n classCounts ih =>
    have hn : model.info.numClass[first]? = some n := hclasses 0 n rfl
    have hroom := h.count_le hn
    obtain ⟨raw, next, hraw, hnext, hnextSize, hkeep, hset⟩ :=
      finishTarget?_spec h hsums hcounts post hsize hn hsum
    have hrest : ∀ (i : Nat) (m : UInt32), classCounts[i]? = some m →
        model.info.numClass[first + 1 + i]? = some m := by
      intro i m hm
      rw [Nat.add_assoc, Nat.add_comm 1 i]
      exact hclasses (i + 1) m hm
    have hnextSum : HoldSums model row next (first + 1) := by
      intro t m c ht hm hc
      have hle := Nat.mul_le_mul_right model.maxNumClass.toNat ht
      rw [Nat.succ_mul] at hle
      rw [hkeep _ (.inr (by omega))]
      exact hsum t m c (by omega) hm hc
    obtain ⟨after, hafter, hafterSize, hfront, hback⟩ :=
      ih (first + 1) hrest next hnextSize hnextSum
    refine ⟨after, ?_, hafterSize, ?_, ?_⟩
    · rw [List.zipIdx_cons, List.foldlM_cons]
      simp only [hnext]
      exact hafter
    · intro place hout
      have hothers : Outside model classCounts (first + 1) place := by
        intro i m hm
        rw [Nat.add_assoc, Nat.add_comm 1 i]
        exact hout (i + 1) m hm
      rw [hfront place hothers, hkeep place (hout 0 n rfl)]
    · intro i m hm
      cases i with
      | zero =>
        cases hm
        refine ⟨raw, hraw, fun c hc => ?_⟩
        have hothers : Outside model classCounts (first + 1)
            (first * model.maxNumClass.toNat + c) := by
          intro i m _
          have hle := Nat.mul_le_mul_right model.maxNumClass.toNat (Nat.le_add_right (first + 1) i)
          rw [Nat.succ_mul] at hle
          exact .inl (by omega)
        rw [Nat.add_zero, hfront _ hothers, hset c hc]
      | succ i =>
        obtain ⟨others, hothers, hplaces⟩ := hback i m hm
        rw [Nat.add_assoc, Nat.add_comm 1 i] at hothers hplaces
        exact ⟨others, hothers, hplaces⟩

/-- The finished scores of a row are those of the formula, class by class and target by target. What
is not a class of any target keeps the sum of what the trees add there. -/
theorem scoreRow?_spec (h : model.Usable kind shape) (hsums : kind.sums = true)
    {counts : Option (Array Nat)} (hcounts : CountsFit model counts) (post : Option Postprocessor)
    {row : Array α} (hrow : row.size = model.info.numFeature.toInt.toNat) :
    ∃ scores, scoreRow? model.info model.trees counts post row = some scores ∧
      scores.size = (ScoreLayout.ofInfo model.info).stride ∧
      (∀ (t : Nat) (n : UInt32), model.info.numClass[t]? = some n →
        ∃ raw, (List.range n.toNat).mapM (model.rawScore? row t) = some raw ∧
          ∀ c < n.toNat,
            scores[t * model.maxNumClass.toNat + c]? = (postprocessed post raw)[c]?) ∧
      ∀ (place : Nat) (fed? : Nat → Option Nat), FedBy model place fed? →
        Outside model model.info.numClass.toList 0 place →
        ∃ y, model.summedAt? fed? row = some y ∧ scores[place]? = some y := by
  obtain ⟨sums, hfold, hsize, hspec⟩ := sums_spec h hsums hrow
  have hclasses : ∀ (i : Nat) (n : UInt32), model.info.numClass.toList[i]? = some n →
      model.info.numClass[0 + i]? = some n := by
    intro i n hi
    rwa [Nat.zero_add, ← Array.getElem?_toList]
  have hholds : HoldSums model row sums 0 := by
    intro t n c _ hn hc
    exact hspec _ _ (h.fedBy hsums hn hc)
  obtain ⟨after, hafter, hafterSize, houtside, hplaces⟩ := finishTargets_spec h hsums hcounts post
    model.info.numClass.toList 0 hclasses sums hsize hholds
  refine ⟨after, ?_, hafterSize, ?_, ?_⟩
  · unfold scoreRow?
    simp only [hfold, Option.bind_eq_bind, Option.bind_some]
    rw [h.layout_eq] at hafter ⊢
    exact hafter
  · intro t n hn
    have := hplaces t n (by rw [Array.getElem?_toList]; exact hn)
    rwa [Nat.zero_add] at this
  · intro place fed? hfed hout
    rw [houtside place hout]
    exact hspec place fed? hfed

end Arboretum

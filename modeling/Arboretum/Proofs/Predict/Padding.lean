import Arboretum.Proofs.Predict.Refinement

/-!
The padding of the scores: the room that the layout keeps for a target beyond the classes that it
has. Base scores, averages and post-processing leave it alone, and of the trees only those that feed
one class of every target reach it, where they name a class that some target lacks.
-/

namespace Arboretum

open Predict

namespace ScoreLayout

variable {layout : ScoreLayout}

/-- Behind the classes of a target, only a tree that feeds one class of every target has a slot. -/
theorem mem_slots_padding (hroomy : layout.Roomy) {target class_ : Int32} {slots : List Slot}
    (hreaches : layout.Reaches target class_) (hslots : layout.slots? target class_ = some slots)
    {t c : Nat} {n : UInt32} (hn : layout.numClass[t]? = some n) (hlow : n.toNat ≤ c)
    (hc : c < layout.maxNumClass) (entry : Nat) :
    ⟨t * layout.maxNumClass + c, entry⟩ ∈ slots ↔
      (target = allSlots ∧ class_.toInt = c) ∧ entry = t := by
  have hall : allSlots.toInt = -1 := by decide
  rw [slots?] at hslots
  by_cases htarget : target = allSlots
  · rw [if_pos htarget] at hslots
    by_cases hclass : class_ = allSlots
    · -- Every class of every target: the classes of a target end before its padding.
      rw [if_pos hclass] at hslots
      cases hslots
      refine iff_of_false (fun hslot => ?_) fun h => ?_
      · obtain ⟨⟨n', t'⟩, ht', hslot⟩ := List.mem_flatMap.mp hslot
        obtain ⟨c', hc', heq⟩ := List.mem_map.mp hslot
        rw [mem_targets] at ht'
        rw [List.mem_range] at hc'
        have hroom := hroomy t' n' ht'
        obtain ⟨rfl, rfl⟩ := place_inj (by omega) hc (congrArg Slot.score heq)
        rw [hn] at ht'
        cases ht'
        omega
      · rw [hclass, hall] at h
        omega
    · obtain ⟨hpos, hlt⟩ := hreaches.class_.resolve_left hclass
      rw [if_neg hclass, position?_eq_some hpos] at hslots
      cases hslots
      rw [List.mem_map, toInt_eq_natCast hpos]
      constructor
      · rintro ⟨⟨n', t'⟩, -, heq⟩
        cases congrArg Slot.entry heq
        obtain ⟨rfl, hsame⟩ := place_inj hlt hc (congrArg Slot.score heq)
        exact ⟨⟨htarget, hsame⟩, rfl⟩
      · rintro ⟨⟨-, rfl⟩, rfl⟩
        exact ⟨(n, entry), mem_targets.mpr hn, rfl⟩
  · obtain ⟨hpos, n', hn', hbelow⟩ := hreaches.target.resolve_left htarget
    have hroom := hroomy _ n' hn'
    rw [if_neg htarget, position?_eq_some hpos] at hslots
    refine iff_of_false (fun hslot => ?_) fun h => htarget h.1.1
    by_cases hclass : class_ = allSlots
    · simp only [Option.bind_eq_bind, Option.bind_some, if_pos hclass, hn'] at hslots
      cases hslots
      obtain ⟨c', hc', heq⟩ := List.mem_map.mp hslot
      rw [List.mem_range] at hc'
      obtain ⟨rfl, rfl⟩ := place_inj (by omega) hc (congrArg Slot.score heq)
      rw [hn] at hn'
      cases hn'
      omega
    · obtain ⟨hposc, hlt⟩ := hbelow.resolve_left hclass
      simp only [Option.bind_eq_bind, Option.bind_some, if_neg hclass, position?_eq_some hposc]
        at hslots
      cases hslots
      have heq := congrArg Slot.score (List.mem_singleton.mp hslot)
      obtain ⟨rfl, rfl⟩ := place_inj hc (by omega) heq
      rw [hn] at hn'
      cases hn'
      omega

end ScoreLayout

namespace Model

/-- The entry of its leaf outputs that a tree of the model adds at class `c` of target `t` if the
target has no such class: a tree that feeds class `c` of every target adds the entry that is meant
for target `t`, and no other tree adds anything. -/
def strays? (model : Model) (index t c : Nat) : Option Nat := do
  let target ← model.info.targetId[index]?
  let class_ ← model.info.classId[index]?
  if target = allSlots ∧ class_.toInt = c then some t else none

variable {α : Type} [Score α] {model : Model} {kind : PredictKind} {shape : LeafShape}
  {t c : Nat} {n : UInt32}

private theorem Usable.fedBy_strays (h : model.Usable kind shape) (hsums : kind.sums = true)
    (hn : model.info.numClass[t]? = some n) (hlow : n.toNat ≤ c)
    (hc : c < model.maxNumClass.toNat) :
    FedBy model (t * model.maxNumClass.toNat + c) fun index => model.strays? index t c where
  lt := by
    obtain ⟨ht, -⟩ := Array.getElem?_eq_some_iff.mp hn
    rw [h.layout_eq]
    exact ScoreLayout.place_lt ht hc
  mem_iff := by
    intro index target class_ slots ht hclass hslots entry
    have hroomy := h.roomy
    have hreaches := h.reaches hsums ht hclass
    rw [h.layout_eq] at hroomy hreaches hslots
    rw [ScoreLayout.mem_slots_padding hroomy hreaches hslots hn hlow hc, strays?, ht, hclass]
    simp only [Option.bind_eq_bind, Option.bind_some, Option.ite_none_right_eq_some,
      Option.some.injEq, eq_comm]

/-- No target writes its finished scores behind its classes. -/
theorem Usable.outside (h : model.Usable kind shape) (hn : model.info.numClass[t]? = some n)
    (hlow : n.toNat ≤ c) (hc : c < model.maxNumClass.toNat) :
    Outside model model.info.numClass.toList 0 (t * model.maxNumClass.toNat + c) := by
  intro i m hm
  rw [Array.getElem?_toList] at hm
  have hroom := h.count_le hm
  rw [Nat.zero_add]
  rcases Nat.lt_trichotomy i t with hi | rfl | hi
  · have hle := Nat.mul_le_mul_right model.maxNumClass.toNat hi
    rw [Nat.succ_mul] at hle
    exact .inr (by omega)
  · rw [hn] at hm
    cases hm
    exact .inr (by omega)
  · have hle := Nat.mul_le_mul_right model.maxNumClass.toNat hi
    rw [Nat.succ_mul] at hle
    exact .inl (by omega)

theorem summedAt?_of_none {fed? : Nat → Option Nat} (h : ∀ index, fed? index = none)
    (row : Array α) : model.summedAt? fed? row = some Numeric.zero := by
  rw [summedAt?]
  induction model.trees.toList.zipIdx with
  | nil => rfl
  | cons entry trees ih =>
    rw [List.foldlM_cons, addAt?, h]
    exact ih

/-- Where a prediction of scores goes through, its output holds at every place of a row, padding
included, what is computed for the row. -/
theorem scores_of_predictOn_ok {machine : Machine} {config : Configuration}
    {input out after : Array α} {numRow : Nat} (hsums : config.kind.sums = true)
    (hok : (model.predictOn machine config input numRow).apply out = (.ok (), after)) :
    ∃ shape post counts, model.Usable config.kind shape ∧ CountsFit model counts ∧
      input.size = numRow * model.info.numFeature.toInt.toNat ∧
      ∀ t < model.info.numTarget.toNat, ∀ r < numRow, ∀ c < model.maxNumClass.toNat, ∀ scores,
        scoreRow? model.info model.trees counts post
            (rowOf input model.info.numFeature.toInt.toNat r) = some scores →
          after[(t * numRow + r) * model.maxNumClass.toNat + c]? =
            scores[t * model.maxNumClass.toNat + c]? := by
  obtain ⟨threads, kernel, hprepare⟩ := prepare_of_predictOn_ok hok
  obtain ⟨-, -, hinput, -, hcheck, -, -, post, -, hkernel⟩ := prepare_eq_ok.mp hprepare
  obtain ⟨shape, h⟩ := check_eq_ok.mp hcheck
  obtain ⟨counts, hcounts, hkernel'⟩ := h.kernel?_sums (α := α) hsums post
  cases hkernel.symm.trans hkernel'
  rcases predictOn_outcome hprepare with ⟨after', hok', -, hplaces⟩ | ⟨cause, -, hfailed⟩
  · cases hok.symm.trans hok'
    refine ⟨shape, post, counts, h, hcounts, hinput.symm, fun t ht r hr c hc scores hscores => ?_⟩
    rw [hplaces hsums t ht r hr c hc, RowKernel.answer]
    dsimp only
    rw [hscores, Option.getD_some, Array.getElem?_toList]
  · rw [hfailed] at hok
    cases hok

/-- What a prediction of scores leaves in the padding: the sum of what trees that feed one class of
every target add there, and zero where no tree does that. -/
theorem predictOn_padding {machine : Machine} {config : Configuration} {input out after : Array α}
    {numRow : Nat} (hsums : config.kind.sums = true)
    (hok : (model.predictOn machine config input numRow).apply out = (.ok (), after)) :
    ∀ (t r c : Nat) (n : UInt32), model.info.numClass[t]? = some n → r < numRow → n.toNat ≤ c →
      c < model.maxNumClass.toNat →
      (∃ sum, model.summedAt? (fun index => model.strays? index t c)
          (rowOf input model.info.numFeature.toInt.toNat r) = some sum ∧
        after[(t * numRow + r) * model.maxNumClass.toNat + c]? = some sum) ∧
      ((∀ index, model.strays? index t c = none) →
        after[(t * numRow + r) * model.maxNumClass.toNat + c]? = some Numeric.zero) := by
  intro t r c n hn hr hlow hc
  obtain ⟨shape, post, counts, h, hcounts, hinput, hplaces⟩ := scores_of_predictOn_ok hsums hok
  obtain ⟨ht, -⟩ := Array.getElem?_eq_some_iff.mp hn
  obtain ⟨scores, hscores, -, -, hpadding⟩ :=
    scoreRow?_spec h hsums hcounts post (size_rowOf hinput hr)
  obtain ⟨sum, hsum, hplace⟩ :=
    hpadding _ _ (h.fedBy_strays hsums hn hlow hc) (h.outside hn hlow hc)
  have hentry : after[(t * numRow + r) * model.maxNumClass.toNat + c]? = some sum := by
    rw [hplaces t (h.numClass_size ▸ ht) r hr c hc scores hscores, hplace]
  refine ⟨⟨sum, hsum, hentry⟩, fun hnone => ?_⟩
  rw [summedAt?_of_none hnone] at hsum
  cases hsum
  exact hentry

/-- Where every tree feeds all classes that its targets have, what stood in the padding before is
replaced by zeros. -/
theorem predictOn_padding_sample :
    ∃ after, (sample.predictOn (.ofCores 4) ⟨.raw, 0⟩ #[⟨0⟩, Score.one] 2).apply
        (Array.replicate 8 (Score.one : Double)) = (.ok (), after) ∧
      ∀ r < 2, after[(1 * 2 + r) * sample.maxNumClass.toNat + 1]? = some Numeric.zero := by
  have hok : (sample.predictOn (.ofCores 4) ⟨.raw, 0⟩ #[⟨0⟩, Score.one] 2).apply
      (Array.replicate 8 (Score.one : Double)) =
        (.ok (), ((sample.predictOn (.ofCores 4) ⟨.raw, 0⟩ #[⟨0⟩, Score.one] 2).apply
          (Array.replicate 8 (Score.one : Double))).2) := Prod.ext (by decide +kernel) rfl
  have hnone : ∀ index, sample.strays? index 1 1 = none := by
    rintro (_ | _ | index)
    · decide
    · decide
    · rfl
  refine ⟨_, hok, fun r hr => ?_⟩
  exact (predictOn_padding rfl hok 1 r 1 1 rfl hr (by decide) (by decide +kernel)).2 hnone

/-- A tree for two targets with two classes and one, which feeds the second class of both. -/
def stray : Model :=
  { create ⟨.double, false⟩ with
    trees := #[((Tree.setLeafVector 0 #[Score.one, ⟨0x4000000000000000⟩] :
      Edit (Tree Double Double) Unit).apply Tree.singleLeaf).2]
    info := { ModelInfo.initial with
      numFeature := 1
      numTarget := 2
      numClass := #[2, 1]
      leafVectorShape := #[2, 1]
      targetId := #[-1]
      classId := #[1]
      baseScores := #[⟨0⟩, ⟨0⟩, ⟨0⟩, ⟨0⟩] } }

/-- The second target has no second class, and yet a two stands in its place. -/
theorem predictOn_stray :
    (stray.predictOn (.ofCores 1) ⟨.raw, 1⟩ #[(⟨0⟩ : Double)] 1).apply (Array.replicate 4 ⟨0⟩) =
        (.ok (), #[⟨0⟩, Score.one, ⟨0⟩, ⟨0x4000000000000000⟩]) ∧
      stray.info.numClass = #[2, 1] ∧ stray.maxNumClass = 2 ∧
      (⟨0x4000000000000000⟩ : Double) ≠ Numeric.zero := by
  decide +kernel

end Model

end Arboretum

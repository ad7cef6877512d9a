import Arboretum.Predict.Routing
import Arboretum.Proofs.Predict.Check
import Arboretum.Proofs.Predict.Reference
import Mathlib.Data.List.Nodup

/-!
The places that a tree feeds. They lie inside the scores of a row, no place is fed twice by one
tree, and a place is fed by exactly the entry that the formula for its class and target names.
-/

namespace Arboretum

instance lawfulOrderMax : Std.LawfulOrderMax UInt32 where
  max_eq_or a b := by
    show (if a ≤ b then b else a) = a ∨ (if a ≤ b then b else a) = b
    split
    · exact .inr rfl
    · exact .inl rfl
  max_le_iff a b c := by
    show (if a ≤ b then b else a) ≤ c ↔ a ≤ c ∧ b ≤ c
    simp only [UInt32.le_iff_toNat_le]
    split <;> omega

theorem le_largestClassCount {numClass : Array UInt32} {count : UInt32} (h : count ∈ numClass) :
    count ≤ largestClassCount numClass := by
  rw [largestClassCount]
  cases hmax : numClass.toList.max? with
  | none =>
    rw [List.max?_eq_none_iff] at hmax
    rw [← Array.mem_toList_iff, hmax] at h
    exact absurd h List.not_mem_nil
  | some m => exact (List.max?_eq_some_iff.mp hmax).2 count (Array.mem_toList_iff.mpr h)

theorem position?_eq_some {id : Int32} (h : 0 ≤ id) : position? id = some id.toInt.toNat := by
  rw [position?]
  rw [Int32.le_iff_toInt_le, Int32.toInt_zero] at h
  rw [if_neg]
  rw [Int32.lt_iff_toInt_lt, Int32.toInt_zero]
  omega

theorem toNat_lt_of_toUInt32_lt {id : Int32} {bound : UInt32} (h : 0 ≤ id)
    (hlt : id.toUInt32 < bound) : id.toInt.toNat < bound.toNat := by
  rw [UInt32.lt_iff_toNat_lt, Int32.toNat_toUInt32_of_le h] at hlt
  exact hlt

theorem toInt_eq_natCast {id : Int32} (h : 0 ≤ id) (n : Nat) :
    id.toInt = n ↔ id.toInt.toNat = n := by
  rw [Int32.le_iff_toInt_le, Int32.toInt_zero] at h
  omega

namespace ScoreLayout

theorem place_inj {m t t' c c' : Nat} (hc : c < m) (hc' : c' < m)
    (h : t * m + c = t' * m + c') : t = t' ∧ c = c' := by
  have hm : 0 < m := by omega
  have ht : (t * m + c) / m = (t' * m + c') / m := by rw [h]
  rw [Nat.mul_comm, Nat.mul_add_div hm, Nat.mul_comm, Nat.mul_add_div hm,
    Nat.div_eq_of_lt hc, Nat.div_eq_of_lt hc'] at ht
  have : t = t' := by omega
  subst this
  exact ⟨rfl, by omega⟩

theorem place_lt {m n t c : Nat} (ht : t < n) (hc : c < m) : t * m + c < n * m := by
  have := Nat.mul_le_mul_right m (Nat.succ_le_of_lt ht)
  rw [Nat.succ_mul] at this
  omega

/-- No target has more classes than there is room for. -/
def Roomy (layout : ScoreLayout) : Prop :=
  ∀ (t : Nat) (n : UInt32), layout.numClass[t]? = some n → n.toNat ≤ layout.maxNumClass

/-- A target and a class that are there, or stand for all. -/
structure Reaches (layout : ScoreLayout) (target class_ : Int32) : Prop where
  target : target = allSlots ∨
    0 ≤ target ∧ ∃ n, layout.numClass[target.toInt.toNat]? = some n ∧
      (class_ = allSlots ∨ 0 ≤ class_ ∧ class_.toInt.toNat < n.toNat)
  class_ : class_ = allSlots ∨ 0 ≤ class_ ∧ class_.toInt.toNat < layout.maxNumClass

def entryCount (layout : ScoreLayout) (target class_ : Int32) : Nat :=
  (if target = allSlots then layout.numTarget else 1) *
    (if class_ = allSlots then layout.maxNumClass else 1)

/-- Places and entries of a tree that fit the scores of a row and the leaf outputs of the tree. -/
structure SlotsFit (layout : ScoreLayout) (target class_ : Int32) (slots : List Slot) : Prop where
  nodup : (slots.map Slot.score).Nodup
  score_lt : ∀ slot ∈ slots, slot.score < layout.stride
  entry_lt : ∀ slot ∈ slots, slot.entry < layout.entryCount target class_
  mem_iff : ∀ (t : Nat) (n : UInt32) (c : Nat), layout.numClass[t]? = some n → c < n.toNat →
    ∀ entry, ⟨t * layout.maxNumClass + c, entry⟩ ∈ slots ↔
      leafOffset? layout.maxNumClass target class_ t c = some entry

theorem mem_targets {layout : ScoreLayout} {n : UInt32} {t : Nat} :
    (n, t) ∈ layout.targets ↔ layout.numClass[t]? = some n := by
  simp only [targets, List.mem_zipIdx_iff_getElem?, Array.getElem?_toList]

private theorem targets_nodup (layout : ScoreLayout) :
    layout.targets.Pairwise fun a b => a.2 ≠ b.2 := by
  rw [← List.pairwise_map (R := (· ≠ ·)), targets, List.zipIdx_map_snd]
  exact List.nodup_range'

variable {layout : ScoreLayout}

theorem slotsFit_all (hroomy : layout.Roomy) :
    layout.SlotsFit allSlots allSlots (layout.targets.flatMap fun (count, t) =>
      (List.range count.toNat).map fun c =>
        ⟨t * layout.maxNumClass + c, t * layout.maxNumClass + c⟩) := by
  have hmem : ∀ slot, slot ∈ (layout.targets.flatMap fun (count, t) =>
      (List.range count.toNat).map fun c =>
        (⟨t * layout.maxNumClass + c, t * layout.maxNumClass + c⟩ : Slot)) →
      slot.score < layout.stride ∧ slot.entry = slot.score := by
    intro slot hslot
    obtain ⟨⟨n, t⟩, ht, hslot⟩ := List.mem_flatMap.mp hslot
    obtain ⟨c, hc, rfl⟩ := List.mem_map.mp hslot
    rw [mem_targets] at ht
    obtain ⟨hlt, -⟩ := Array.getElem?_eq_some_iff.mp ht
    have hroom := hroomy t n ht
    exact ⟨place_lt hlt (Nat.lt_of_lt_of_le (List.mem_range.mp hc) hroom), rfl⟩
  refine ⟨?_, fun slot h => (hmem slot h).1, ?_, ?_⟩
  · rw [List.map_flatMap, List.nodup_flatMap]
    constructor
    · rintro ⟨n, t⟩ -
      rw [List.map_map]
      exact List.nodup_range.map fun a b h => Nat.add_left_cancel h
    · refine (layout.targets_nodup.imp_of_mem ?_)
      rintro ⟨n, t⟩ ⟨n', t'⟩ hm hm' hne
      rw [mem_targets] at hm hm'
      simp only [Function.onFun, List.map_map]
      intro i hi hi'
      obtain ⟨c, hc, rfl⟩ := List.mem_map.mp hi
      obtain ⟨c', hc', he⟩ := List.mem_map.mp hi'
      have hn := hroomy t n hm
      have hn' := hroomy t' n' hm'
      rw [List.mem_range] at hc hc'
      exact hne (place_inj (by omega) (by omega) he.symm).1
  · intro slot h
    rw [(hmem slot h).2, entryCount, if_pos rfl, if_pos rfl]
    exact (hmem slot h).1
  · intro t n c ht hc entry
    rw [leafOffset?, if_pos rfl, if_pos rfl, Option.some.injEq]
    constructor
    · intro h
      exact (hmem _ h).2.symm
    · rintro rfl
      exact List.mem_flatMap.mpr ⟨(n, t), mem_targets.mpr ht,
        List.mem_map.mpr ⟨c, List.mem_range.mpr hc, rfl⟩⟩

theorem slotsFit_class {class_ : Int32} (hroomy : layout.Roomy) (hne : class_ ≠ allSlots)
    (hpos : 0 ≤ class_) (hlt : class_.toInt.toNat < layout.maxNumClass) :
    layout.SlotsFit allSlots class_ (layout.targets.map fun (_, t) =>
      ⟨t * layout.maxNumClass + class_.toInt.toNat, t⟩) := by
  have hmem : ∀ slot : Slot, slot ∈ (layout.targets.map fun (_, t) =>
      (⟨t * layout.maxNumClass + class_.toInt.toNat, t⟩ : Slot)) ↔
      slot.entry < layout.numTarget ∧
        slot.score = slot.entry * layout.maxNumClass + class_.toInt.toNat := by
    rintro ⟨score, entry⟩
    constructor
    · intro h
      obtain ⟨⟨n, t⟩, ht, he⟩ := List.mem_map.mp h
      cases he
      obtain ⟨hlt, -⟩ := Array.getElem?_eq_some_iff.mp (mem_targets.mp ht)
      exact ⟨hlt, rfl⟩
    · rintro ⟨he, hs⟩
      dsimp only at he hs
      subst hs
      exact List.mem_map.mpr ⟨(_, entry), mem_targets.mpr (Array.getElem?_eq_getElem he), rfl⟩
  refine ⟨?_, ?_, ?_, ?_⟩
  · rw [List.map_map, List.Nodup, List.pairwise_map]
    refine layout.targets_nodup.imp ?_
    rintro ⟨n, t⟩ ⟨n', t'⟩ hne h
    exact hne (place_inj hlt hlt h).1
  · intro slot h
    obtain ⟨he, hs⟩ := (hmem slot).mp h
    rw [hs]
    exact place_lt he hlt
  · intro slot h
    rw [entryCount, if_pos rfl, if_neg hne, Nat.mul_one]
    exact ((hmem slot).mp h).1
  · intro t n c ht hc entry
    obtain ⟨htlt, -⟩ := Array.getElem?_eq_some_iff.mp ht
    have hroom := hroomy t n ht
    rw [hmem, leafOffset?, if_pos rfl, if_neg hne]
    simp only [toInt_eq_natCast hpos]
    constructor
    · rintro ⟨he, hs⟩
      obtain ⟨rfl, rfl⟩ := place_inj (by omega) hlt hs
      rw [if_pos rfl]
    · intro h
      split at h
      · rename_i heq
        cases h
        exact ⟨htlt, by rw [heq]⟩
      · cases h

theorem slotsFit_target {target : Int32} {n : UInt32} (hroomy : layout.Roomy)
    (hne : target ≠ allSlots) (hpos : 0 ≤ target)
    (hn : layout.numClass[target.toInt.toNat]? = some n) :
    layout.SlotsFit target allSlots ((List.range n.toNat).map fun c =>
      ⟨target.toInt.toNat * layout.maxNumClass + c, c⟩) := by
  have hroom := hroomy _ n hn
  obtain ⟨htlt, -⟩ := Array.getElem?_eq_some_iff.mp hn
  refine ⟨?_, ?_, ?_, ?_⟩
  · rw [List.map_map]
    exact List.nodup_range.map fun a b h => Nat.add_left_cancel h
  · intro slot h
    obtain ⟨c, hc, rfl⟩ := List.mem_map.mp h
    exact place_lt htlt (Nat.lt_of_lt_of_le (List.mem_range.mp hc) hroom)
  · intro slot h
    obtain ⟨c, hc, rfl⟩ := List.mem_map.mp h
    rw [entryCount, if_neg hne, if_pos rfl, Nat.one_mul]
    exact Nat.lt_of_lt_of_le (List.mem_range.mp hc) hroom
  · intro t n' c ht hc entry
    have hroom' := hroomy t n' ht
    rw [leafOffset?, if_neg hne, if_pos rfl, List.mem_map]
    simp only [toInt_eq_natCast hpos, Slot.mk.injEq, List.mem_range]
    constructor
    · rintro ⟨c', hc', he, rfl⟩
      obtain ⟨rfl, rfl⟩ := place_inj (by omega) (by omega) he
      rw [if_pos rfl]
    · intro h
      split at h
      · rename_i heq
        cases h
        subst heq
        rw [hn] at ht
        cases ht
        exact ⟨c, hc, rfl, rfl⟩
      · cases h

theorem slotsFit_single {target class_ : Int32} {n : UInt32} (hroomy : layout.Roomy)
    (hnet : target ≠ allSlots) (hnec : class_ ≠ allSlots) (hpost : 0 ≤ target) (hposc : 0 ≤ class_)
    (hn : layout.numClass[target.toInt.toNat]? = some n) (hlt : class_.toInt.toNat < n.toNat) :
    layout.SlotsFit target class_
      [⟨target.toInt.toNat * layout.maxNumClass + class_.toInt.toNat, 0⟩] := by
  have hroom := hroomy _ n hn
  obtain ⟨htlt, -⟩ := Array.getElem?_eq_some_iff.mp hn
  refine ⟨List.nodup_singleton _, ?_, ?_, ?_⟩
  · intro slot h
    cases List.mem_singleton.mp h
    exact place_lt htlt (Nat.lt_of_lt_of_le hlt hroom)
  · intro slot h
    cases List.mem_singleton.mp h
    rw [entryCount, if_neg hnet, if_neg hnec]
    exact Nat.one_pos
  · intro t n' c ht hc entry
    have hroom' := hroomy t n' ht
    rw [leafOffset?, if_neg hnet, if_neg hnec, List.mem_singleton]
    simp only [toInt_eq_natCast hpost, toInt_eq_natCast hposc, Slot.mk.injEq]
    constructor
    · rintro ⟨he, rfl⟩
      obtain ⟨rfl, rfl⟩ := place_inj (by omega) (by omega) he
      rw [if_pos rfl, if_pos rfl]
    · intro h
      split at h
      · rename_i ht
        split at h
        · rename_i hc
          cases h
          exact ⟨by rw [ht, hc], rfl⟩
        · cases h
      · cases h

/-- A tree whose target and class are there has places to feed. -/
theorem exists_slots (hroomy : layout.Roomy) {target class_ : Int32}
    (h : layout.Reaches target class_) :
    ∃ slots, layout.slots? target class_ = some slots ∧ layout.SlotsFit target class_ slots := by
  rw [slots?]
  by_cases htarget : target = allSlots
  · subst htarget
    rw [if_pos rfl]
    by_cases hclass : class_ = allSlots
    · subst hclass
      rw [if_pos rfl]
      exact ⟨_, rfl, slotsFit_all hroomy⟩
    · obtain ⟨hpos, hlt⟩ := h.class_.resolve_left hclass
      rw [if_neg hclass, position?_eq_some hpos]
      exact ⟨_, rfl, slotsFit_class hroomy hclass hpos hlt⟩
  · obtain ⟨hpos, n, hn, hc⟩ := h.target.resolve_left htarget
    rw [if_neg htarget, position?_eq_some hpos]
    by_cases hclass : class_ = allSlots
    · subst hclass
      simp only [Option.bind_eq_bind, Option.bind_some, if_true, hn]
      exact ⟨_, rfl, slotsFit_target hroomy htarget hpos hn⟩
    · obtain ⟨hposc, hlt⟩ := hc.resolve_left hclass
      simp only [Option.bind_eq_bind, Option.bind_some, if_neg hclass, position?_eq_some hposc]
      exact ⟨_, rfl, slotsFit_single hroomy htarget hclass hpos hposc hn hlt⟩

end ScoreLayout

end Arboretum

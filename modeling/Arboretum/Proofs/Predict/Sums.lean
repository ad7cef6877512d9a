import Arboretum.Predict.Basic
import Arboretum.Proofs.Predict.Layout

/-!
The sums of a row. One tree changes exactly the places that it feeds, each once; all trees together
leave in every place the sum of what they add there, and count how many of them feed it.
-/

namespace Arboretum

open Predict ScoreLayout

private theorem foldl_modify {β : Type} {g : Slot → β → β} {slots : List Slot} (entries : Array β)
    (hnodup : (slots.map Slot.score).Nodup) :
    (slots.foldl (fun entries slot => entries.modify slot.score (g slot)) entries).size =
        entries.size ∧
      (∀ i, (∀ slot ∈ slots, slot.score ≠ i) →
        (slots.foldl (fun entries slot => entries.modify slot.score (g slot)) entries)[i]? =
          entries[i]?) ∧
      ∀ slot ∈ slots,
        (slots.foldl (fun entries slot => entries.modify slot.score (g slot))
          entries)[slot.score]? =
          entries[slot.score]?.map (g slot) := by
  induction slots generalizing entries with
  | nil => simp
  | cons slot slots ih =>
    rw [List.map_cons, List.nodup_cons] at hnodup
    obtain ⟨hfirst, hrest⟩ := hnodup
    have hother : ∀ other ∈ slots, other.score ≠ slot.score := fun other ho he =>
      hfirst (he ▸ List.mem_map_of_mem ho)
    obtain ⟨hsize, hkeep, hset⟩ := ih (entries.modify slot.score (g slot)) hrest
    rw [List.foldl_cons]
    refine ⟨by rw [hsize, Array.size_modify], ?_, ?_⟩
    · intro i hi
      rw [hkeep i fun other ho => hi other (List.mem_cons_of_mem _ ho), Array.getElem?_modify,
        if_neg (hi slot List.mem_cons_self)]
    · intro other ho
      rcases List.mem_cons.mp ho with rfl | ho
      · rw [hkeep _ hother, Array.getElem?_modify, if_pos rfl]
      · rw [hset other ho, Array.getElem?_modify, if_neg (hother other ho).symm]

private theorem foldlM_modify {β : Type} {g : Slot → β → β}
    {step : Array β → Slot → Option (Array β)} {size : Nat} {slots : List Slot} {entries : Array β}
    (hstep : ∀ slot ∈ slots, ∀ entries, entries.size = size →
      step entries slot = some (entries.modify slot.score (g slot)))
    (hsize : entries.size = size) :
    slots.foldlM step entries =
      some (slots.foldl (fun entries slot => entries.modify slot.score (g slot)) entries) := by
  induction slots generalizing entries with
  | nil => rfl
  | cons slot slots ih =>
    rw [List.foldlM_cons, hstep slot List.mem_cons_self entries hsize, List.foldl_cons]
    exact ih (fun other ho => hstep other (List.mem_cons_of_mem _ ho))
      (by rw [Array.size_modify, hsize])

private theorem setIfInBounds_eq_modify {β : Type} {entries : Array β} {i : Nat} {x : β} {f : β → β}
    (h : entries[i]? = some x) : entries.setIfInBounds i (f x) = entries.modify i f := by
  apply Array.ext_getElem?
  intro j
  rw [Array.getElem?_setIfInBounds, Array.getElem?_modify]
  by_cases hij : i = j
  · subst hij
    obtain ⟨hlt, rfl⟩ := Array.getElem?_eq_some_iff.mp h
    simp [hlt]
  · simp [hij]

namespace Predict

variable {T L α : Type} [Numeric L] [Score α]

private theorem addTo?_eq {scores : Array α} {score : Nat} (h : score < scores.size) (output : L) :
    addTo? scores score output =
      some (scores.modify score fun x => Score.add x (Numeric.cast output)) := by
  obtain ⟨x, hx⟩ := exists_entry rfl h
  simp only [addTo?, hx, Option.bind_eq_bind, Option.bind_some, Option.pure_def]
  rw [setIfInBounds_eq_modify (f := fun x => Score.add x (Numeric.cast output)) hx]

private theorem countSlot?_eq {counts : Array Nat} {slot : Slot} (h : slot.score < counts.size) :
    countSlot? counts slot = some (counts.modify slot.score (· + 1)) := by
  obtain ⟨x, hx⟩ := exists_entry rfl h
  simp only [countSlot?, hx, Option.bind_eq_bind, Option.bind_some, Option.pure_def]
  rw [setIfInBounds_eq_modify (f := (· + 1)) hx]

/-- A leaf that offers a vector of the right length, or one number for a single place. -/
def Offers (layout : ScoreLayout) (target class_ : Int32) (node : Node T L) : Prop :=
  if node.hasLeafVector then node.leafVector.size = layout.entryCount target class_
  else target ≠ allSlots ∧ class_ ≠ allSlots

omit [Numeric L] in
private theorem Offers.exists_offered {layout : ScoreLayout} {target class_ : Int32}
    {node : Node T L} (h : Offers layout target class_ node) {entry : Nat}
    (he : entry < layout.entryCount target class_) :
    ∃ output, node.offered? entry = some output := by
  unfold Node.offered?
  rw [Offers] at h
  cases hv : node.hasLeafVector with
  | true =>
    rw [hv, if_pos rfl] at h
    exact exists_entry h he
  | false => exact ⟨_, rfl⟩

def gained (node : Node T L) (slot : Slot) (x : α) : α :=
  match node.offered? slot.entry with
  | some output => Score.add x (Numeric.cast output)
  | none => x

private theorem gained_eq {node : Node T L} {slot : Slot} {output : L}
    (h : node.offered? slot.entry = some output) :
    gained node slot = fun x : α => Score.add x (Numeric.cast output) := by
  funext x
  simp only [gained, h]

/-- The output of a leaf is added once in every place that its tree feeds. -/
theorem addOutput?_eq {layout : ScoreLayout} {target class_ : Int32} {slots : List Slot}
    {node : Node T L} {scores : Array α} (hslots : layout.slots? target class_ = some slots)
    (hfit : layout.SlotsFit target class_ slots) (hoffers : Offers layout target class_ node)
    (hsize : scores.size = layout.stride) :
    addOutput? layout target class_ node scores =
      some (slots.foldl (fun scores slot => scores.modify slot.score (gained node slot))
        scores) := by
  rw [addOutput?]
  cases hv : node.hasLeafVector with
  | true =>
    simp only [if_true, hslots, Option.bind_eq_bind, Option.bind_some]
    refine foldlM_modify (fun slot hm scores hs => ?_) hsize
    obtain ⟨output, ho⟩ := hoffers.exists_offered (hfit.entry_lt slot hm)
    have hget : node.leafVector[slot.entry]? = some output := by
      rwa [Node.offered?, hv, if_pos rfl] at ho
    rw [hget, Option.bind_some, addTo?_eq (hs ▸ hfit.score_lt slot hm), gained_eq ho]
  | false =>
    have hne : target ≠ allSlots ∧ class_ ≠ allSlots := by
      unfold Offers at hoffers
      rwa [hv, if_neg Bool.false_ne_true] at hoffers
    unfold slots? at hslots
    rw [if_neg hne.1] at hslots
    simp only [if_neg hne.2, Option.bind_eq_bind, Option.bind_eq_some_iff, Option.pure_def,
      Option.some.injEq] at hslots
    obtain ⟨t, ht, c, hc, rfl⟩ := hslots
    have hlt := hfit.score_lt _ List.mem_cons_self
    simp only [Bool.false_eq_true, if_false, ht, hc, Option.bind_eq_bind, Option.bind_some]
    rw [addTo?_eq (hsize ▸ hlt), List.foldl_cons, List.foldl_nil, gained_eq]
    rw [Node.offered?, hv, if_neg Bool.false_ne_true]

end Predict

namespace Model.Usable

variable {model : Model} {kind : PredictKind} {shape : LeafShape}

theorem layout_eq (h : model.Usable kind shape) :
    ScoreLayout.ofInfo model.info = ⟨model.info.numClass, model.maxNumClass.toNat⟩ := by
  rw [ScoreLayout.ofInfo, ← h.numClass_size, Array.take_eq_extract,
    Array.extract_size]
  rfl

theorem numTarget_eq (h : model.Usable kind shape) :
    (ScoreLayout.ofInfo model.info).numTarget = model.info.numTarget.toNat := by
  rw [h.layout_eq, ← h.numClass_size]
  rfl

theorem roomy (h : model.Usable kind shape) : (ScoreLayout.ofInfo model.info).Roomy := by
  rw [h.layout_eq]
  intro t n hn
  have hle := le_largestClassCount (Array.mem_of_getElem? hn)
  rwa [UInt32.le_iff_toNat_le] at hle

theorem count_le (h : model.Usable kind shape) {t : Nat} {n : UInt32}
    (hn : model.info.numClass[t]? = some n) : n.toNat ≤ model.maxNumClass.toNat := by
  have hroomy := h.roomy
  rw [h.layout_eq] at hroomy
  exact hroomy t n hn

theorem place_lt (h : model.Usable kind shape) {t c : Nat} {n : UInt32}
    (hn : model.info.numClass[t]? = some n) (hc : c < n.toNat) :
    t * model.maxNumClass.toNat + c < (ScoreLayout.ofInfo model.info).stride := by
  rw [h.layout_eq]
  obtain ⟨ht, -⟩ := Array.getElem?_eq_some_iff.mp hn
  exact ScoreLayout.place_lt ht (Nat.lt_of_lt_of_le hc (h.count_le hn))

theorem exists_routing (h : model.Usable kind shape) {index : Nat} (hlt : index < model.numTree) :
    ∃ target class_, model.info.targetId[index]? = some target ∧
      model.info.classId[index]? = some class_ := by
  obtain ⟨target, ht⟩ := exists_entry h.targetId_size hlt
  obtain ⟨class_, hc⟩ := exists_entry h.classId_size hlt
  exact ⟨target, class_, ht, hc⟩

theorem reaches (h : model.Usable kind shape) (hsums : kind.sums = true) {index : Nat}
    {target class_ : Int32} (ht : model.info.targetId[index]? = some target)
    (hc : model.info.classId[index]? = some class_) :
    (ScoreLayout.ofInfo model.info).Reaches target class_ := by
  have hrouted := h.routed hsums index target class_ ht hc
  have hroomy := h.roomy
  rw [h.layout_eq] at hroomy ⊢
  by_cases htarget : target = allSlots
  · refine ⟨.inl htarget, ?_⟩
    have hclass := hrouted.class_lt
    rw [if_pos htarget] at hclass
    exact hclass.imp_right fun hc => ⟨hc.1, toNat_lt_of_toUInt32_lt hc.1 hc.2⟩
  · obtain ⟨hpos, hlt⟩ := hrouted.target_lt htarget
    obtain ⟨n, hn⟩ := exists_entry h.numClass_size (toNat_lt_of_toUInt32_lt hpos hlt)
    have hclass := hrouted.class_lt
    rw [if_neg htarget, Array.getD_eq_getD_getElem?, hn, Option.getD_some] at hclass
    have hbelow : class_ = allSlots ∨ 0 ≤ class_ ∧ class_.toInt.toNat < n.toNat :=
      hclass.imp_right fun hc => ⟨hc.1, toNat_lt_of_toUInt32_lt hc.1 hc.2⟩
    exact ⟨.inr ⟨hpos, n, hn, hbelow⟩,
      hbelow.imp_right fun hc => ⟨hc.1, Nat.lt_of_lt_of_le hc.2 (hroomy _ n hn)⟩⟩

private theorem entryCount_eq (h : model.Usable kind shape) (hsums : kind.sums = true) {index : Nat}
    {target class_ : Int32} (ht : model.info.targetId[index]? = some target)
    (hc : model.info.classId[index]? = some class_) :
    (ScoreLayout.ofInfo model.info).entryCount target class_ = shape.size := by
  rw [← (h.routed hsums index target class_ ht hc).shape_eq, ScoreLayout.entryCount,
    h.numTarget_eq, h.layout_eq, LeafShape.size, LeafShape.ofRouting]
  dsimp only
  rw [apply_ite UInt32.toNat, apply_ite UInt32.toNat]
  rfl

/-- The slots of a tree are those of the classes and targets that it feeds. -/
theorem mem_slots_iff (h : model.Usable kind shape) {index : Nat} {target class_ : Int32}
    {slots : List Slot} (hfit : (ScoreLayout.ofInfo model.info).SlotsFit target class_ slots)
    (ht : model.info.targetId[index]? = some target)
    (hc : model.info.classId[index]? = some class_) {t c : Nat} {n : UInt32}
    (hn : model.info.numClass[t]? = some n) (hcn : c < n.toNat) (entry : Nat) :
    ⟨t * model.maxNumClass.toNat + c, entry⟩ ∈ slots ↔ model.feeds? index t c = some entry := by
  have hmem := hfit.mem_iff t n c (by rw [h.layout_eq]; exact hn) hcn entry
  rw [h.layout_eq] at hmem
  rw [hmem]
  simp only [Model.feeds?, ht, hc, Option.bind_eq_bind, Option.bind_some]

/-- A row with the features of the model reaches a leaf in each of its trees. -/
theorem exists_leaf {α : Type} [Score α] (h : model.Usable kind shape) {index : Nat}
    {tree : Tree model.pairing.Threshold model.pairing.Leaf}
    (htree : model.trees[index]? = some tree)
    {row : Array α} (hrow : row.size = model.info.numFeature.toInt.toNat) :
    ∃ leaf node, tree.leafOf? row = some leaf ∧ tree.node? leaf = some node ∧
      node.isLeaf = true ∧ NodeFits model.info kind shape index node := by
  have hfits := h.fits index tree htree
  have hvalid := hfits.valid
  have hpos : 0 < tree.nodeCount := by
    have hne : tree.numNodes.toInt ≠ 0 := fun he =>
      hfits.nonempty (Int32.toInt_inj.mp (by rw [he, Int32.toInt_zero]))
    have hle := (Tree.validate_eq_ok.mp hvalid).1
    rw [Int32.le_iff_toInt_le, Int32.toInt_zero] at hle
    unfold Tree.nodeCount
    omega
  have htests : tree.TestsBelow row.size := fun nid node hnode hleaf =>
    hrow ▸ (hfits.node nid node hnode).feature_lt hleaf
  obtain ⟨leaf, hleaf⟩ := Tree.exists_leafOf hvalid hpos htests
  obtain ⟨node, hnode, hisLeaf⟩ := Tree.isLeaf_of_leafBelow? hleaf
  exact ⟨leaf, node, hleaf, hnode, hisLeaf, hfits.node leaf node hnode⟩

private theorem offers (h : model.Usable kind shape) (hsums : kind.sums = true) {index : Nat}
    {target class_ : Int32} (ht : model.info.targetId[index]? = some target)
    (hc : model.info.classId[index]? = some class_)
    {node : Node model.pairing.Threshold model.pairing.Leaf} (hleaf : node.isLeaf = true)
    (hfits : NodeFits model.info kind shape index node) :
    Offers (ScoreLayout.ofInfo model.info) target class_ node := by
  have hkind : kind ≠ .leafId := by
    rintro rfl
    cases hsums
  rw [Offers]
  cases hv : node.hasLeafVector with
  | true =>
    rw [if_pos rfl, h.entryCount_eq hsums ht hc]
    exact hfits.vector_size hleaf hkind hv
  | false =>
    have hboth := hfits.scalar_routing hleaf hsums hv
    rw [Array.getD_eq_getD_getElem?, ht, Array.getD_eq_getD_getElem?, hc] at hboth
    rw [if_neg Bool.false_ne_true]
    exact hboth

end Model.Usable

section Fold

variable {α : Type} [Score α] {model : Model} {kind : PredictKind} {shape : LeafShape}

/-- A place among the scores of a row, and for each tree the entry of its outputs that goes
there. -/
structure FedBy (model : Model) (place : Nat) (fed? : Nat → Option Nat) : Prop where
  lt : place < (ScoreLayout.ofInfo model.info).stride
  mem_iff : ∀ {index : Nat} {target class_ : Int32} {slots : List Slot},
    model.info.targetId[index]? = some target → model.info.classId[index]? = some class_ →
    (ScoreLayout.ofInfo model.info).slots? target class_ = some slots →
    ∀ entry, ⟨place, entry⟩ ∈ slots ↔ fed? index = some entry

/-- The place of a class that a target has is fed as the formula says. -/
theorem Model.Usable.fedBy (h : model.Usable kind shape) (hsums : kind.sums = true) {t c : Nat}
    {n : UInt32} (hn : model.info.numClass[t]? = some n) (hc : c < n.toNat) :
    FedBy model (t * model.maxNumClass.toNat + c) fun index => model.feeds? index t c where
  lt := h.place_lt hn hc
  mem_iff := by
    intro index target class_ slots ht hclass hslots
    obtain ⟨slots', hslots', hfit⟩ := exists_slots h.roomy (h.reaches hsums ht hclass)
    cases hslots.symm.trans hslots'
    exact h.mem_slots_iff hfit ht hclass hn hc

/-- The sum at a place after one more tree, which adds one entry of its outputs or nothing. -/
def Model.addAt? (model : Model) (fed? : Nat → Option Nat) (row : Array α) (sum : α)
    (entry : Tree model.pairing.Threshold model.pairing.Leaf × Nat) : Option α :=
  match fed? entry.2 with
  | none => some sum
  | some place => do return Score.add sum (Numeric.cast (← entry.1.contribution? row place))

/-- One tree changes the sum at every place by what it adds there. -/
theorem addTree?_spec (h : model.Usable kind shape) (hsums : kind.sums = true) {index : Nat}
    {tree : Tree model.pairing.Threshold model.pairing.Leaf}
    (htree : model.trees[index]? = some tree) {row : Array α}
    (hrow : row.size = model.info.numFeature.toInt.toNat) {scores : Array α}
    (hsize : scores.size = (ScoreLayout.ofInfo model.info).stride) :
    ∃ after, addTree? (.ofInfo model.info) model.info row scores tree index = some after ∧
      after.size = (ScoreLayout.ofInfo model.info).stride ∧
      ∀ (place : Nat) (fed? : Nat → Option Nat) (x : α), FedBy model place fed? →
        scores[place]? = some x →
        ∃ y, model.addAt? fed? row x (tree, index) = some y ∧ after[place]? = some y := by
  obtain ⟨hindex, -⟩ := Array.getElem?_eq_some_iff.mp htree
  obtain ⟨target, class_, ht, hc⟩ := h.exists_routing hindex
  obtain ⟨leaf, node, hleaf, hnode, hisLeaf, hfits⟩ := h.exists_leaf htree hrow
  obtain ⟨slots, hslots, hfit⟩ := exists_slots h.roomy (h.reaches hsums ht hc)
  have hoffers := h.offers hsums ht hc hisLeaf hfits
  obtain ⟨hkeepSize, hkeep, hset⟩ := foldl_modify (g := gained node) scores hfit.nodup
  refine ⟨_, ?_, by rw [hkeepSize, hsize], ?_⟩
  · simp only [addTree?, hleaf, ht, hc, hnode, Option.bind_eq_bind, Option.bind_some]
    exact addOutput?_eq hslots hfit hoffers hsize
  · intro place fed? x hfed hx
    have hmem := hfed.mem_iff ht hc hslots
    rw [Model.addAt?]
    cases hentry : fed? index with
    | none =>
      -- No slot has this place, whatever its entry.
      refine ⟨x, rfl, ?_⟩
      rw [hkeep, hx]
      rintro ⟨score, entry⟩ hslot rfl
      rw [hmem, hentry] at hslot
      cases hslot
    | some entry =>
      have hslot := (hmem entry).mpr hentry
      obtain ⟨output, ho⟩ := hoffers.exists_offered (hfit.entry_lt _ hslot)
      refine ⟨Score.add x (Numeric.cast output), ?_, ?_⟩
      · simp only [Tree.contribution?, hleaf, hnode, ho, Option.bind_eq_bind, Option.bind_some,
          Option.pure_def]
      · rw [hset _ hslot, hx, Option.map_some, gained_eq ho]

/-- The trees of a list change the sum at every place one after the other. -/
theorem addTrees_spec (h : model.Usable kind shape) (hsums : kind.sums = true) {row : Array α}
    (hrow : row.size = model.info.numFeature.toInt.toNat)
    {trees : List (Tree model.pairing.Threshold model.pairing.Leaf × Nat)}
    (htrees : ∀ entry ∈ trees, model.trees[entry.2]? = some entry.1) (scores : Array α)
    (hsize : scores.size = (ScoreLayout.ofInfo model.info).stride) :
    ∃ after, trees.foldlM (fun scores (tree, index) =>
        addTree? (.ofInfo model.info) model.info row scores tree index) scores = some after ∧
      after.size = (ScoreLayout.ofInfo model.info).stride ∧
      ∀ (place : Nat) (fed? : Nat → Option Nat) (x : α), FedBy model place fed? →
        scores[place]? = some x →
        ∃ y, trees.foldlM (model.addAt? fed? row) x = some y ∧ after[place]? = some y := by
  induction trees generalizing scores with
  | nil => exact ⟨scores, rfl, hsize, fun place fed? x _ hx => ⟨x, rfl, hx⟩⟩
  | cons entry trees ih =>
    obtain ⟨tree, index⟩ := entry
    rw [List.forall_mem_cons] at htrees
    dsimp only at htrees
    obtain ⟨next, hnext, hnextSize, hone⟩ := addTree?_spec h hsums htrees.1 hrow hsize
    obtain ⟨after, hafter, hafterSize, hmany⟩ := ih htrees.2 next hnextSize
    refine ⟨after, ?_, hafterSize, ?_⟩
    · rw [List.foldlM_cons]
      simp only [hnext]
      exact hafter
    · intro place fed? x hfed hx
      obtain ⟨y, hy, hplace⟩ := hone place fed? x hfed hx
      obtain ⟨z, hz, hlast⟩ := hmany place fed? y hfed hplace
      refine ⟨z, ?_, hlast⟩
      rw [List.foldlM_cons, hy]
      exact hz

/-- The sum of everything that is added at a place, in the order of the trees. -/
def Model.summedAt? (model : Model) (fed? : Nat → Option Nat) (row : Array α) : Option α :=
  model.trees.toList.zipIdx.foldlM (model.addAt? fed? row) Numeric.zero

/-- The sums of a row hold at every place what the trees add there. -/
theorem sums_spec (h : model.Usable kind shape) (hsums : kind.sums = true) {row : Array α}
    (hrow : row.size = model.info.numFeature.toInt.toNat) :
    ∃ sums, model.trees.toList.zipIdx.foldlM (fun scores (tree, index) =>
        addTree? (.ofInfo model.info) model.info row scores tree index)
        (Array.replicate (ScoreLayout.ofInfo model.info).stride Numeric.zero) = some sums ∧
      sums.size = (ScoreLayout.ofInfo model.info).stride ∧
      ∀ (place : Nat) (fed? : Nat → Option Nat), FedBy model place fed? →
        ∃ y, model.summedAt? fed? row = some y ∧ sums[place]? = some y := by
  have htrees : ∀ entry ∈ model.trees.toList.zipIdx, model.trees[entry.2]? = some entry.1 := by
    intro entry hentry
    rw [List.mem_zipIdx_iff_getElem?, Array.getElem?_toList] at hentry
    exact hentry
  obtain ⟨sums, hfold, hsize, hspec⟩ := addTrees_spec h hsums hrow htrees
    (Array.replicate (ScoreLayout.ofInfo model.info).stride Numeric.zero) Array.size_replicate
  refine ⟨sums, hfold, hsize, fun place fed? hfed => hspec place fed? Numeric.zero hfed ?_⟩
  rw [Array.getElem?_replicate, if_pos hfed.lt]

/-- One tree counts once for each class of each target that it feeds. -/
theorem countTree_spec (h : model.Usable kind shape) (hsums : kind.sums = true) {index : Nat}
    (hindex : index < model.numTree) {counts : Array Nat}
    (hsize : counts.size = (ScoreLayout.ofInfo model.info).stride) :
    ∃ after, (do
        let slots ← (ScoreLayout.ofInfo model.info).slots? (← model.info.targetId[index]?)
          (← model.info.classId[index]?)
        slots.foldlM countSlot? counts) = some after ∧
      after.size = (ScoreLayout.ofInfo model.info).stride ∧
      ∀ (t : Nat) (n : UInt32) (c k : Nat), model.info.numClass[t]? = some n → c < n.toNat →
        counts[t * model.maxNumClass.toNat + c]? = some k →
        after[t * model.maxNumClass.toNat + c]? =
          some (k + if (model.feeds? index t c).isSome then 1 else 0) := by
  obtain ⟨target, class_, ht, hc⟩ := h.exists_routing hindex
  obtain ⟨slots, hslots, hfit⟩ := exists_slots h.roomy (h.reaches hsums ht hc)
  obtain ⟨hkeepSize, hkeep, hset⟩ := foldl_modify (g := fun _ : Slot => (· + 1)) counts hfit.nodup
  refine ⟨_, ?_, by rw [hkeepSize, hsize], ?_⟩
  · simp only [ht, hc, hslots, Option.bind_eq_bind, Option.bind_some]
    exact foldlM_modify (fun slot hm counts hs => countSlot?_eq (hs ▸ hfit.score_lt slot hm)) hsize
  · intro t n c k hn hcn hk
    have hmem := h.mem_slots_iff hfit ht hc hn hcn
    cases hentry : model.feeds? index t c with
    | none =>
      rw [hkeep, hk]
      · rfl
      · rintro ⟨score, entry⟩ hslot rfl
        rw [hmem, hentry] at hslot
        cases hslot
    | some entry =>
      rw [hset _ ((hmem entry).mpr hentry), hk]
      rfl

/-- The trees of a list count for each class of each target that they feed. -/
theorem countTrees_spec (h : model.Usable kind shape) (hsums : kind.sums = true)
    {indices : List Nat} (hindices : ∀ index ∈ indices, index < model.numTree)
    (counts : Array Nat) (hsize : counts.size = (ScoreLayout.ofInfo model.info).stride) :
    ∃ after, indices.foldlM (fun counts index => do
        let slots ← (ScoreLayout.ofInfo model.info).slots? (← model.info.targetId[index]?)
          (← model.info.classId[index]?)
        slots.foldlM countSlot? counts) counts = some after ∧
      after.size = (ScoreLayout.ofInfo model.info).stride ∧
      ∀ (t : Nat) (n : UInt32) (c k : Nat), model.info.numClass[t]? = some n → c < n.toNat →
        counts[t * model.maxNumClass.toNat + c]? = some k →
        after[t * model.maxNumClass.toNat + c]? =
          some (k + indices.countP fun index => (model.feeds? index t c).isSome) := by
  induction indices generalizing counts with
  | nil => exact ⟨counts, rfl, hsize, fun t n c k _ _ hk => hk⟩
  | cons index indices ih =>
    rw [List.forall_mem_cons] at hindices
    obtain ⟨next, hnext, hnextSize, hone⟩ := countTree_spec h hsums hindices.1 hsize
    obtain ⟨after, hafter, hafterSize, hmany⟩ := ih hindices.2 next hnextSize
    refine ⟨after, ?_, hafterSize, ?_⟩
    · rw [List.foldlM_cons, hnext]
      exact hafter
    · intro t n c k hn hc hk
      rw [hmany t n c _ hn hc (hone t n c k hn hc hk), List.countP_cons]
      congr 1
      omega

/-- Every place counts the trees that feed it. -/
theorem treeCounts?_spec (h : model.Usable kind shape) (hsums : kind.sums = true) :
    ∃ counts, treeCounts? (.ofInfo model.info) model.info model.numTree = some counts ∧
      counts.size = (ScoreLayout.ofInfo model.info).stride ∧
      ∀ (t : Nat) (n : UInt32) (c : Nat), model.info.numClass[t]? = some n → c < n.toNat →
        counts[t * model.maxNumClass.toNat + c]? = some (model.feedCount t c) := by
  obtain ⟨counts, hfold, hsize, hspec⟩ := countTrees_spec h hsums
    (fun index hindex => List.mem_range.mp hindex)
    (Array.replicate (ScoreLayout.ofInfo model.info).stride 0) Array.size_replicate
  refine ⟨counts, hfold, hsize, fun t n c hn hc => ?_⟩
  rw [hspec t n c 0 hn hc (by rw [Array.getElem?_replicate, if_pos (h.place_lt hn hc)]),
    Nat.zero_add]
  rfl

end Fold

end Arboretum

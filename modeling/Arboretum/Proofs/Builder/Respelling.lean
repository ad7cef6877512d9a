import Arboretum.Proofs.Builder.Spelling
import Arboretum.Proofs.Predict.Renumbering

/-!
Two ways to spell one tree: under other keys, with the nodes behind the root in another order,
lists of categories in any order, and any statistics. The number of a node changes with the place
of its key and nothing else does, so where one spelling is accepted so is the other, and the trees
that come out differ in the numbers of their nodes alone.
-/

namespace Arboretum

variable {ρ : Int32 → Int32}

/-- The same test or output with renamed keys. Categories may stand in any order. -/
inductive Request.Respelled (ρ : Int32 → Int32) : Request → Request → Prop where
  | numericalTest (feature : Int32) (threshold : Double) (defaultLeft : Bool)
    (comparison : Comparison) (left right : Int32) :
    Respelled ρ (.numericalTest feature threshold defaultLeft comparison left right)
      (.numericalTest feature threshold defaultLeft comparison (ρ left) (ρ right))
  | categoricalTest (feature : Int32) (defaultLeft : Bool) {categories others : List UInt32}
    (h : categories.Perm others) (matchGoesRight : Bool) (left right : Int32) :
    Respelled ρ (.categoricalTest feature defaultLeft categories matchGoesRight left right)
      (.categoricalTest feature defaultLeft others matchGoesRight (ρ left) (ρ right))
  | leafScalar (value : Double) : Respelled ρ (.leafScalar value) (.leafScalar value)
  | leafVector {α : Type} [Numeric α] (values : Array α) :
    Respelled ρ (.leafVector values) (.leafVector values)

/-- The same node under its new key, with statistics of its own. -/
inductive DeclaredNode.Respelled (ρ : Int32 → Int32) : DeclaredNode → DeclaredNode → Prop where
  | intro {declared : DeclaredNode} {detail other : Request} {before after : List Request}
    (hdetail : declared.detail? = some detail) (h : detail.Respelled ρ other)
    (hbefore : ∀ request ∈ before, request.isStatistic = true)
    (hafter : ∀ request ∈ after, request.isStatistic = true) :
    Respelled ρ declared ⟨ρ declared.key, before ++ other :: after⟩

/-- The same tree: its nodes are respelled one by one, under keys that still tell them apart, and
those behind the root may then be declared in any order. -/
inductive Respelled : List DeclaredNode → List DeclaredNode → Prop where
  | intro (ρ : Int32 → Int32) {nodes renamed others : List DeclaredNode}
    (hnonneg : ∀ declared ∈ nodes, 0 ≤ ρ declared.key)
    (hinjective : ∀ declared ∈ nodes, ∀ other ∈ nodes, ρ declared.key = ρ other.key →
      declared.key = other.key)
    (hrenamed : List.Forall₂ (DeclaredNode.Respelled ρ) nodes renamed)
    (hroot : renamed.head? = others.head?) (horder : renamed.Perm others) :
    Respelled nodes others

namespace Request.Respelled

variable {request other : Request}

theorem isDetail (h : request.Respelled ρ other) : other.isDetail = true := by
  cases h <;> rfl

theorem childKeys?_eq (h : request.Respelled ρ other) :
    other.childKeys? = request.childKeys?.map (Prod.map ρ ρ) := by
  cases h <;> rfl

theorem outputCount_eq (h : request.Respelled ρ other) :
    other.outputCount = request.outputCount := by
  cases h <;> rfl

theorem categoryCount_eq (h : request.Respelled ρ other) :
    other.categoryCount = request.categoryCount := by
  cases h with
  | categoricalTest _ _ hperm _ _ _ => exact hperm.length_eq.symm
  | numericalTest | leafScalar | leafVector => rfl

theorem fits (h : request.Respelled ρ other) {b : Builder} {key : Int32}
    (hfits : request.Fits b key)
    (hchildren : ∀ left right, request.childKeys? = some (left, right) →
      ChildrenFit key left right → ChildrenFit (ρ key) (ρ left) (ρ right)) :
    other.Fits b (ρ key) := by
  cases h with
  | numericalTest _ _ _ _ left right =>
    obtain ⟨hfeature, hkeys, hne⟩ := hfits
    exact ⟨hfeature, hchildren left right rfl hkeys, hne⟩
  | categoricalTest _ _ _ _ left right =>
    obtain ⟨hfeature, hkeys⟩ := hfits
    exact ⟨hfeature, hchildren left right rfl hkeys⟩
  | leafScalar | leafVector => exact hfits

end Request.Respelled

private theorem mergeSort_eq_of_perm {categories others : List UInt32}
    (h : categories.Perm others) :
    others.mergeSort (· ≤ ·) = categories.mergeSort (· ≤ ·) := by
  exact List.Perm.eq_of_pairwise (fun _ _ _ _ hab hba => UInt32.le_antisymm hab hba)
    (ascending_mergeSort others) (ascending_mergeSort categories)
    ((List.mergeSort_perm others _).trans (h.symm.trans (List.mergeSort_perm categories _).symm))

namespace DeclaredNode.Respelled

variable {declared other : DeclaredNode}

theorem key_eq (h : declared.Respelled ρ other) : other.key = ρ declared.key := by
  cases h
  rfl

theorem spelled (h : declared.Respelled ρ other) : other.Spelled := by
  obtain ⟨-, h, hbefore, hafter⟩ := h
  exact .intro _ h.isDetail hbefore hafter

theorem detail (h : declared.Respelled ρ other) : ∃ request given,
    declared.detail? = some request ∧ other.detail? = some given ∧ request.Respelled ρ given := by
  obtain ⟨hdetail, h, hbefore, hafter⟩ := h
  exact ⟨_, _, hdetail, detail?_of_filter (filter_isDetail h.isDetail hbefore hafter), h⟩

theorem complete (h : declared.Respelled ρ other) : other.Complete := by
  obtain ⟨-, h, hbefore, hafter⟩ := h
  exact ⟨_, filter_isDetail h.isDetail hbefore hafter⟩

theorem childKeys?_eq (h : declared.Respelled ρ other) :
    other.childKeys? = declared.childKeys?.map (Prod.map ρ ρ) := by
  obtain ⟨request, given, hrequest, hgiven, h⟩ := h.detail
  rw [childKeys?, childKeys?, hrequest, hgiven, Option.bind_some, Option.bind_some,
    h.childKeys?_eq]

/-- The two nodes say the same where their children are numbered accordingly. -/
theorem alike {T L : Type} [Numeric T] [Numeric L] {number place : Int32 → Int32}
    {σ : Nat → Nat} (h : declared.Respelled ρ other)
    (hchildren : ∀ left right, declared.childKeys? = some (left, right) →
      place (ρ left) = renumber σ (number left) ∧
        place (ρ right) = renumber σ (number right)) :
    (declared.node number : Node T L).Alike σ (other.node place) := by
  obtain ⟨request, given, hrequest, hgiven, h⟩ := h.detail
  rw [childKeys?, hrequest, Option.bind_some] at hchildren
  rw [node, node, hrequest, hgiven, Option.elim_some, Option.elim_some]
  cases h with
  | numericalTest _ _ _ _ left right =>
    obtain ⟨hleft, hright⟩ := hchildren left right rfl
    exact ⟨rfl, hleft, hright, rfl, rfl, rfl, rfl, rfl, rfl, rfl, rfl⟩
  | categoricalTest _ _ hperm _ left right =>
    obtain ⟨hleft, hright⟩ := hchildren left right rfl
    exact ⟨rfl, hleft, hright, rfl, rfl, rfl, rfl, rfl, rfl,
      congrArg List.toArray (mergeSort_eq_of_perm hperm), rfl⟩
  | leafScalar => exact ⟨rfl, rfl, rfl, rfl, rfl, rfl, rfl, rfl, rfl, rfl, rfl⟩
  | leafVector => exact ⟨rfl, rfl, rfl, rfl, rfl, rfl, rfl, rfl, rfl, rfl, rfl⟩

end DeclaredNode.Respelled

section Places

variable {xs ys : List Int32}

/-- The place in the second list of what stands at a place of the first. -/
def placeIn (xs ys : List Int32) (i : Nat) : Nat := ys.idxOf (xs.getD i 0)

private theorem placeIn_of_getElem? {i : Nat} {key : Int32} (h : xs[i]? = some key) :
    placeIn xs ys i = ys.idxOf key := by
  rw [placeIn, List.getD_eq_getElem?_getD, h, Option.getD_some]

/-- Of two orders of the same keys, each leads back to the other. -/
theorem placeIn_placeIn (hperm : xs.Perm ys) (hnodup : xs.Nodup) {i : Nat} (hi : i < xs.length) :
    placeIn xs ys i < xs.length ∧ placeIn ys xs (placeIn xs ys i) = i := by
  have hmem : xs[i] ∈ ys := hperm.mem_iff.mp (List.getElem_mem hi)
  rw [placeIn_of_getElem? (List.getElem?_eq_getElem hi)]
  refine ⟨?_, ?_⟩
  · rw [hperm.length_eq]
    exact List.idxOf_lt_length_iff.mpr hmem
  · rw [placeIn_of_getElem? (List.getElem?_idxOf hmem), hnodup.idxOf_getElem]

private theorem placeIn_zero (hroot : xs.head? = ys.head?) (hpos : 0 < xs.length) :
    placeIn xs ys 0 = 0 := by
  obtain ⟨root, rest, rfl⟩ := List.exists_cons_of_length_pos hpos
  rw [placeIn_of_getElem? List.getElem?_cons_zero]
  cases ys with
  | nil => cases hroot
  | cons other rest =>
    cases hroot
    exact List.idxOf_cons_self

end Places

private theorem renumber_ofNat {σ : Nat → Nat} {i : Nat} (hi : i < 2 ^ 31) :
    renumber σ (.ofNat i) = .ofNat (σ i) := by
  have hvalue := Int32.toInt_ofNat_of_lt hi
  have hne : Int32.ofNat i ≠ noChild := by
    intro heq
    have hminus : noChild.toInt = -1 := by decide
    rw [heq, hminus] at hvalue
    omega
  rw [renumber, if_neg hne, hvalue, Int.toNat_natCast]

section Renamed

variable {nodes renamed others : List DeclaredNode}

theorem keys_renamed (h : List.Forall₂ (DeclaredNode.Respelled ρ) nodes renamed) :
    renamed.map DeclaredNode.key = (nodes.map DeclaredNode.key).map ρ := by
  induction h with
  | nil => rfl
  | cons hfirst _ ih => rw [List.map_cons, List.map_cons, List.map_cons, hfirst.key_eq, ih]

private theorem numberOf_renamed (h : List.Forall₂ (DeclaredNode.Respelled ρ) nodes renamed)
    (hlength : nodes.length < 2 ^ 31) {key : Int32} (hkey : key ∈ nodes.map DeclaredNode.key) :
    numberOf others (ρ key) =
      renumber (placeIn (renamed.map DeclaredNode.key) (others.map DeclaredNode.key))
        (numberOf nodes key) := by
  have hlt : (nodes.map DeclaredNode.key).idxOf key < 2 ^ 31 := by
    have hplace := List.idxOf_lt_length_iff.mpr hkey
    rw [List.length_map] at hplace
    exact Nat.lt_trans hplace hlength
  have hat : (renamed.map DeclaredNode.key)[(nodes.map DeclaredNode.key).idxOf key]? =
      some (ρ key) := by
    rw [keys_renamed h, List.getElem?_map, List.getElem?_idxOf hkey, Option.map_some]
  rw [numberOf, numberOf, renumber_ofNat hlt, placeIn_of_getElem? hat]

private theorem handedOver_renamed {count : Request → Nat}
    (hcount : ∀ {request given : Request}, request.Respelled ρ given → count given = count request)
    (h : List.Forall₂ (DeclaredNode.Respelled ρ) nodes renamed) :
    handedOver count renamed = handedOver count nodes := by
  rw [handedOver, handedOver]
  induction h with
  | nil => rfl
  | cons hfirst _ ih =>
    obtain ⟨request, given, hrequest, hgiven, hrespelled⟩ := hfirst.detail
    rw [List.map_cons, List.map_cons, List.sum_cons, List.sum_cons, ih, hrequest, hgiven,
      Option.elim_some, Option.elim_some, hcount hrespelled]

end Renamed

private theorem Tree.numNodes_eq {T L : Type} {tree other : Tree T L} (hpos : 0 ≤ tree.numNodes)
    (hpos' : 0 ≤ other.numNodes) (hcount : other.nodeCount = tree.nodeCount) :
    other.numNodes = tree.numNodes := by
  rw [Int32.le_iff_toInt_le, Int32.toInt_zero] at hpos hpos'
  refine Int32.toInt_inj.mp ?_
  unfold Tree.nodeCount at hcount
  omega

namespace Respelled

variable {nodes others : List DeclaredNode}

theorem length_eq (h : Respelled nodes others) : others.length = nodes.length := by
  obtain ⟨_, -, -, hrenamed, -, horder⟩ := h
  rw [← horder.length_eq, hrenamed.length_eq]

theorem handedOver_eq {count : Request → Nat} (h : Respelled nodes others)
    (hcount : ∀ {ρ : Int32 → Int32} {request given : Request}, request.Respelled ρ given →
      count given = count request) : handedOver count others = handedOver count nodes := by
  obtain @⟨ρ, _, renamed, _, -, -, hrenamed, -, horder⟩ := h
  have hmoved : handedOver count others = handedOver count renamed := (horder.symm.map _).sum_nat
  rw [hmoved, handedOver_renamed hcount hrenamed]

theorem exists_node {renamed : List DeclaredNode}
    (hrenamed : List.Forall₂ (DeclaredNode.Respelled ρ) nodes renamed)
    (horder : renamed.Perm others) {other : DeclaredNode} (hother : other ∈ others) :
    ∃ declared ∈ nodes, declared.Respelled ρ other := by
  obtain ⟨i, hi⟩ := List.getElem?_of_mem (horder.mem_iff.mpr hother)
  obtain ⟨declared, hdeclared, hrespelled⟩ := exists_partner hrenamed hi
  exact ⟨declared, List.mem_of_getElem? hdeclared, hrespelled⟩

/-- The trees of two spellings differ in the numbers of their nodes alone. -/
theorem renumbered {T L : Type} [Numeric T] [Numeric L] {tree other : Tree T L}
    (h : Respelled nodes others) (hbuilt : Built nodes tree) (hother : Built others other)
    (hcolumnar : tree.Columnar) (hpos : 0 ≤ tree.numNodes) (hpos' : 0 ≤ other.numNodes) :
    ∃ σ τ, Tree.Renumbered σ τ tree other := by
  have hlength := h.length_eq
  obtain @⟨ρ, _, renamed, _, -, -, hrenamed, hroot, horder⟩ := h
  let old := renamed.map DeclaredNode.key
  let new := others.map DeclaredNode.key
  have hperm : old.Perm new := horder.map _
  have hold : old.Nodup := hperm.nodup_iff.mpr hother.keys
  have hsize : old.length = tree.nodeCount := by
    rw [hbuilt.count, List.length_map, hrenamed.length_eq]
  refine ⟨placeIn old new, placeIn new old, ?_, fun hnodes => ?_, fun i hi => ?_, fun j hj => ?_,
    fun i node hnode => ?_⟩
  · refine Tree.numNodes_eq hpos hpos' ?_
    rw [hother.count, hlength, hbuilt.count]
  · refine placeIn_zero ?_ (hsize ▸ hnodes)
    rw [List.head?_map, List.head?_map, hroot]
  · rw [← hsize] at hi ⊢
    exact placeIn_placeIn hperm hold hi
  · rw [← hsize, hperm.length_eq] at hj ⊢
    exact placeIn_placeIn hperm.symm hother.keys hj
  · have hi := hcolumnar.lt hnode
    rw [hbuilt.count] at hi
    obtain ⟨shown, hshown, hrespelled⟩ :=
      exists_partner hrenamed.flip (List.getElem?_eq_getElem hi)
    rw [hbuilt.node i nodes[i] (List.getElem?_eq_getElem hi)] at hnode
    cases hnode
    have hplace : placeIn old new i = new.idxOf shown.key :=
      placeIn_of_getElem? (by rw [List.getElem?_map, hshown, Option.map_some])
    have hmem : shown ∈ others := horder.mem_iff.mp (List.mem_of_getElem? hshown)
    -- keys are not repeated, so the node stands where its key is found
    rw [hplace]
    refine ⟨_, hother.node _ shown (getElem?_idxOf_key hother.keys hmem), hrespelled.alike ?_⟩
    intro left right hkeys
    obtain ⟨hleft, hright⟩ := hbuilt.children _ (List.getElem_mem hi) left right hkeys
    have hcount : nodes.length < 2 ^ 31 := hbuilt.count ▸ tree.nodeCount_lt
    exact ⟨numberOf_renamed hrenamed hcount hleft, numberOf_renamed hrenamed hcount hright⟩

end Respelled

end Arboretum

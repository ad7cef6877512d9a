import Arboretum.Proofs.Encoding.RoundTrip
import Mathlib.Data.List.Basic

/-!
Putting models of one pairing together, and cutting one off behind some of its trees. Trees and
their routing stay side by side through both, so that models behave like lists: it does not matter
in which groups they are put together, and what stands first can be had back.
-/

namespace Arboretum

private theorem Tree.stored_stored {T L : Type} (tree : Tree T L) :
    tree.stored.stored = tree.stored := rfl

namespace Model

def treesOf (pairing : Pairing) (model : Model) : List (Tree pairing.Threshold pairing.Leaf) :=
  if h : model.pairing = pairing then h ▸ model.trees.toList else []

/-- The trees of some models of a pairing, and their routing, under given metadata. -/
def gather (pairing : Pairing) (info : ModelInfo) (models : List Model) : Model where
  pairing := pairing
  trees := (models.flatMap (treesOf pairing)).toArray
  info := { info with
    targetId := (models.flatMap fun model => model.info.targetId.toList).toArray
    classId := (models.flatMap fun model => model.info.classId.toList).toArray }
  version := .current
  optionalFields := 0

variable {pairing : Pairing} {info : ModelInfo} {first model : Model} {models rest : List Model}

private theorem treesOf_self (trees : Array (Tree pairing.Threshold pairing.Leaf))
    (info : ModelInfo) (version : FormatVersion) (fields : Int32) :
    treesOf pairing ⟨pairing, trees, info, version, fields⟩ = trees.toList :=
  dif_pos rfl

theorem treesOf_refreshed (h : model.pairing = pairing) :
    treesOf pairing model.refreshed = (treesOf pairing model).map Tree.stored := by
  subst h
  obtain ⟨pairing, trees, info, version, fields⟩ := model
  rw [treesOf_self, refreshed, treesOf_self]
  exact Array.toList_map

theorem refreshed_gather : (gather pairing info models).refreshed =
    { pairing := pairing
      trees := ((models.flatMap (treesOf pairing)).map Tree.stored).toArray
      info := { info with
        targetId := (models.flatMap fun model => model.info.targetId.toList).toArray
        classId := (models.flatMap fun model => model.info.classId.toList).toArray }
      version := .current
      optionalFields := 0 } := by
  rw [refreshed, gather, ← List.map_toArray]
  rfl

theorem numTree_gather : (gather pairing info models).refreshed.numTree =
    (models.flatMap (treesOf pairing)).length := by
  rw [refreshed_gather, numTree, List.size_toArray, List.length_map]

theorem appendTrees_gather (h : model.pairing = pairing) (index : Nat) :
    (gather pairing info models).appendTrees index first model =
      .ok (gather pairing info (models ++ [model])) := by
  subst h
  obtain ⟨pairing, trees, own, version, fields⟩ := model
  rw [appendTrees, dif_pos (by rfl)]
  simp only [gather, List.flatMap_append, List.flatMap_singleton, treesOf_self,
    ← List.append_toArray, Array.toArray_toList]
  rfl

private theorem foldlM_appendTrees (hrest : ∀ model ∈ rest, model.pairing = pairing) (index : Nat) :
    (rest.zipIdx index).foldlM
        (fun total entry => total.appendTrees entry.2 first entry.1) (gather pairing info models) =
      .ok (gather pairing info (models ++ rest)) := by
  induction rest generalizing models index with
  | nil =>
    rw [List.append_nil]
    rfl
  | cons model rest ih =>
    obtain ⟨hmodel, hrest⟩ := List.forall_mem_cons.mp hrest
    rw [List.zipIdx_cons, List.foldlM_cons, appendTrees_gather hmodel, ok_bind, ih hrest,
      List.append_assoc, List.singleton_append]

/-- Models of one pairing are put together in their order, under the metadata of the first. -/
theorem concat_eq (hrest : ∀ model ∈ rest, model.pairing = first.pairing) :
    concat (first :: rest) =
      .ok (gather first.pairing first.info (first :: rest)).refreshed := by
  have hall : ∀ model ∈ first :: rest, model.pairing = first.pairing :=
    List.forall_mem_cons.mpr ⟨rfl, hrest⟩
  have hfold : (first :: rest).zipIdx.foldlM
      (fun total entry => total.appendTrees entry.2 first entry.1)
      (gather first.pairing first.info []) =
      .ok (gather first.pairing first.info (first :: rest)) := foldlM_appendTrees hall 0
  rw [concat]
  exact congrArg (· >>= fun total => .ok total.refreshed) hfold

/-- The model that a group of models of one pairing is put together to. -/
def ofGroup (group : List Model) : Model :=
  (gather group.head!.pairing group.head!.info group).refreshed

theorem concat_group {group : List Model} (hne : group ≠ [])
    (hgroup : ∀ model ∈ group, model.pairing = pairing) : concat group = .ok (ofGroup group) := by
  cases group with
  | nil => exact absurd rfl hne
  | cons first rest =>
    obtain ⟨rfl, hrest⟩ := List.forall_mem_cons.mp hgroup
    exact concat_eq hrest

private theorem treesOf_ofGroup {group : List Model} (hne : group ≠ [])
    (hgroup : ∀ model ∈ group, model.pairing = pairing) :
    treesOf pairing (ofGroup group) = (group.flatMap (treesOf pairing)).map Tree.stored := by
  cases group with
  | nil => exact absurd rfl hne
  | cons first rest =>
    obtain ⟨rfl, -⟩ := List.forall_mem_cons.mp hgroup
    exact (treesOf_refreshed rfl).trans (congrArg _ (treesOf_self _ _ _ _))

private theorem flatMap_ofGroup {β : Type} (field : ModelInfo → Array β)
    (hfield : ∀ group, field (ofGroup group).info =
      (group.flatMap fun model => (field model.info).toList).toArray)
    (groups : List (List Model)) :
    (groups.map ofGroup).flatMap (fun model => (field model.info).toList) =
      groups.flatten.flatMap fun model => (field model.info).toList := by
  rw [List.flatMap_map, List.flatten_eq_flatMap, List.flatMap_assoc]
  exact congrArg (groups.flatMap ·) (funext fun group => congrArg Array.toList (hfield group))

/-- Groups that are put together give what their members give when they are put together. -/
theorem gather_groups {groups : List (List Model)} (hne : ∀ group ∈ groups, group ≠ [])
    (hall : ∀ group ∈ groups, ∀ model ∈ group, model.pairing = pairing) :
    (gather pairing info (groups.map ofGroup)).refreshed =
      (gather pairing info groups.flatten).refreshed := by
  have htrees : ((groups.map ofGroup).flatMap (treesOf pairing)).map Tree.stored =
      (groups.flatten.flatMap (treesOf pairing)).map Tree.stored := by
    rw [List.flatMap_map, List.flatten_eq_flatMap, List.flatMap_assoc, List.map_flatMap,
      List.map_flatMap]
    refine List.flatMap_congr fun group hgroup => ?_
    rw [treesOf_ofGroup (hne group hgroup) (hall group hgroup), List.map_map]
    exact congrArg (List.map · _) (funext Tree.stored_stored)
  simp only [refreshed_gather, htrees, flatMap_ofGroup ModelInfo.targetId fun _ => rfl,
    flatMap_ofGroup ModelInfo.classId fun _ => rfl]

private theorem gather_info_congr {other : ModelInfo} (h : ∃ targetId classId,
    other = { info with targetId := targetId, classId := classId }) :
    gather pairing other models = gather pairing info models := by
  obtain ⟨_, _, rfl⟩ := h
  rfl

/-- It does not matter in which groups models are put together. -/
theorem concat_groups {groups : List (List Model)} (hne : ∀ group ∈ groups, group ≠ [])
    (hsplit : groups.flatten = first :: rest)
    (hrest : ∀ model ∈ rest, model.pairing = first.pairing) :
    groups.mapM concat >>= concat = concat (first :: rest) := by
  have hall : ∀ group ∈ groups, ∀ model ∈ group, model.pairing = first.pairing := by
    intro group hgroup model hmodel
    have hmem : model ∈ first :: rest := hsplit ▸ List.mem_flatten_of_mem hgroup hmodel
    rcases List.mem_cons.mp hmem with rfl | hmem
    · rfl
    · exact hrest model hmem
  have hpairings : ∀ group ∈ groups, (ofGroup group).pairing = first.pairing := by
    intro group hgroup
    cases group with
    | nil => exact absurd rfl (hne [] hgroup)
    | cons model group => exact hall _ hgroup model (List.mem_cons_self ..)
  rw [mapM_eq_ok fun group hgroup => concat_group (hne group hgroup) (hall group hgroup), ok_bind,
    concat_eq hrest, ← hsplit]
  cases groups with
  | nil => cases hsplit
  | cons group groups =>
    cases group with
    | nil => exact absurd rfl (hne [] (List.mem_cons_self ..))
    | cons head tail =>
      obtain rfl : head = first := (List.cons.inj hsplit).1
      obtain ⟨-, hothers⟩ := List.forall_mem_cons.mp hpairings
      have hconcat : concat (((head :: tail) :: groups).map ofGroup) = _ :=
        concat_eq (List.forall_mem_map.mpr hothers)
      have hinfo : ∃ targetId classId, (ofGroup (head :: tail)).info =
          { head.info with targetId := targetId, classId := classId } := ⟨_, _, rfl⟩
      rw [gather_info_congr hinfo] at hconcat
      exact hconcat.trans (congrArg Except.ok (gather_groups hne hall))

/-- A number of first trees is kept with their routing, and nothing else changes. -/
theorem limitTrees_eq {limit : Nat} (hpos : 0 < limit) (hle : limit ≤ model.numTree) :
    model.limitTrees limit = .ok { model with
      trees := model.trees.take limit
      info.targetId := model.info.targetId.take limit
      info.classId := model.info.classId.take limit } := by
  rw [limitTrees, require_eq_ok.mpr hpos, ok_bind, require_eq_ok.mpr hle]
  rfl

theorem take_take {α : Type} {xs : Array α} {m n : Nat} (hle : m ≤ n) :
    (xs.take n).take m = xs.take m := by
  rw [← Array.toList_inj]
  simp [Nat.min_eq_left hle]

/-- Only the last of several limits that go down counts. -/
theorem limitTrees_limitTrees {limit smaller : Nat} (hpos : 0 < smaller) (hle : smaller ≤ limit)
    (hnum : limit ≤ model.numTree) :
    (model.limitTrees limit >>= fun limited => limited.limitTrees smaller) =
      model.limitTrees smaller := by
  have hkept : (model.trees.take limit).size = limit := by
    simp only [Array.take_eq_extract, Array.size_extract, Nat.sub_zero]
    exact Nat.min_eq_left hnum
  rw [limitTrees_eq (Nat.lt_of_lt_of_le hpos hle) hnum, ok_bind,
    limitTrees_eq hpos (Nat.le_trans hle hnum),
    limitTrees_eq hpos (by rw [numTree, hkept]; exact hle)]
  simp only [take_take hle]

theorem take_append {α : Type} {xs : Array α} {n : Nat} (hsize : xs.size = n) (more : List α) :
    (xs.toList ++ more).toArray.take n = xs := by
  subst hsize
  rw [← Array.toList_inj]
  simp

/-- The first of some models comes back when the others are cut off behind it. -/
theorem limitTrees_gather (hpos : 0 < first.numTree)
    (htarget : first.info.targetId.size = first.numTree)
    (hclass : first.info.classId.size = first.numTree) :
    (gather first.pairing first.info (first :: rest)).refreshed.limitTrees first.numTree =
      .ok first.refreshed := by
  obtain ⟨pairing, trees, info, version, fields⟩ := first
  have htrees : ∀ more, ((trees.toList ++ more).map Tree.stored).toArray.take trees.size =
      trees.map Tree.stored := by
    intro more
    rw [List.map_append, ← Array.toList_map]
    exact take_append (Array.size_map ..) _
  have hle : trees.size ≤ (gather pairing info (⟨pairing, trees, info, version, fields⟩ ::
      rest)).refreshed.numTree := by
    rw [numTree_gather, List.flatMap_cons, treesOf_self, List.length_append]
    exact Nat.le_add_right ..
  rw [refreshed_gather] at hle ⊢
  rw [numTree] at htarget hclass
  rw [limitTrees_eq hpos hle]
  simp only [List.flatMap_cons, treesOf_self, numTree, htrees, take_append htarget,
    take_append hclass]
  rfl

end Model

end Arboretum

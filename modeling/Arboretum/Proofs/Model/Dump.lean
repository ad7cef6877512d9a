import Arboretum.Model.Dump
import Arboretum.Proofs.Json.Seen
import Arboretum.Proofs.Tree.Walk

/-!
What can be read off a dump. Everything that it shows of a model is decided by its text: the
metadata, the trees and their nodes, of a leaf its output, of a test what it asks and where it
leads, and which statistics were recorded.
-/

namespace Arboretum

open Json

private theorem tells_name {α : Type} [Enumeration α]
    (h : ∀ a : α, Enumeration.ofName? (Enumeration.name a) = some a) :
    Tells fun a : α => .string (Enumeration.name a) :=
  tells_string.comp fun a b hname => Option.some.inj (by rw [← h a, ← h b, hname])

private theorem tells_task : Tells fun task : Task => .string (Enumeration.name task) :=
  tells_name fun task => by cases task <;> decide

private theorem tells_kind : Tells fun kind : NodeKind => .string (Enumeration.name kind) :=
  tells_name fun kind => by cases kind <;> decide

private theorem tells_comparison :
    Tells fun comparison : Comparison => .string (Enumeration.name comparison) :=
  tells_name fun comparison => by cases comparison <;> decide

/-- A type whose finite numbers are told apart by their texts. -/
def TellsScalars (α : Type) [Numeric α] : Prop := Tells fun x : α => (Numeric.toScalar x).toJson

private theorem tellsScalars_word (precision : Precision) : TellsScalars precision.Word := by
  cases precision with
  | single => exact tells_single
  | double => exact tells_double

private theorem tellsScalars_leaf (pairing : Pairing) : TellsScalars pairing.Leaf := by
  obtain ⟨precision, integerLeaves⟩ := pairing
  cases integerLeaves with
  | false => exact tellsScalars_word precision
  | true => exact tells_uint32

private theorem scalar_not_array (x : Scalar) (items : List Json) :
    ¬ x.toJson.SeenAs (.array items) ∧ ¬ (Json.array items).SeenAs x.toJson := by
  constructor
  · intro h
    have heq := h.printed_eq
    cases x <;> cases heq
  · intro h
    have heq := h.printed_eq
    cases x <;> cases heq

namespace Node

variable {T L : Type}

/-- Two tests that ask the same and lead to nodes of the same numbers. -/
structure SameTest (node other : Node T L) : Prop where
  feature : other.feature = node.feature
  defaultLeft : other.defaultLeft = node.defaultLeft
  kind : other.kind = node.kind
  categorical : node.kind = .categoricalTest →
    other.categories = node.categories ∧ other.matchGoesRight = node.matchGoesRight
  numerical : node.kind ≠ .categoricalTest →
    other.comparison = node.comparison ∧ other.threshold = node.threshold
  left : other.left = node.left
  right : other.right = node.right

/-- Two nodes that are the same in everything that a dump shows of them. -/
structure SeenAs (node other : Node T L) : Prop where
  isLeaf : other.isLeaf = node.isLeaf
  output : node.isLeaf = true → node.SameOutput other
  test : node.isLeaf = false → node.SameTest other
  dataCount : other.dataCount = node.dataCount
  sumHess : other.sumHess = node.sumHess
  gain : other.gain = node.gain

variable {node other : Node T L} {nid nid' : Nat}

private theorem leafVector_of_hasLeafVector (h : node.hasLeafVector = false) :
    node.leafVector = #[] := by
  rw [hasLeafVector, Bool.not_eq_eq_eq_not, Bool.not_false] at h
  exact Array.isEmpty_iff.mp h

theorem sameStatistics_of_statisticsJson
    (h : List.Forall₂ MemberSeenAs node.statisticsJson other.statisticsJson) :
    other.dataCount = node.dataCount ∧ other.sumHess = node.sumHess ∧ other.gain = node.gain := by
  have hlast : ∀ gain : Option Double, ∀ member ∈
      (gain.map fun gain => ("gain", Json.double gain)).toList, member.1 ≠ "sum_hess" :=
    optional_key (by decide)
  have hlater : ∀ sum gain : Option Double, ∀ member ∈
      (sum.map fun sum => ("sum_hess", Json.double sum)).toList ++
        (gain.map fun gain => ("gain", Json.double gain)).toList, member.1 ≠ "data_count" :=
    fun sum gain => List.forall_mem_append.mpr
      ⟨optional_key (by decide) sum, optional_key (by decide) gain⟩
  rw [statisticsJson, statisticsJson, List.append_assoc, List.append_assoc] at h
  obtain ⟨hdata, h⟩ := seenAs_optional tells_uint64 (hlater _ _) (hlater _ _) h
  obtain ⟨hsum, h⟩ := seenAs_optional tells_double (hlast _) (hlast _) h
  rw [← List.append_nil (Option.toList (node.gain.map _)),
    ← List.append_nil (Option.toList (other.gain.map _))] at h
  obtain ⟨hgain, -⟩ :=
    seenAs_optional tells_double (List.forall_mem_nil _) (List.forall_mem_nil _) h
  exact ⟨hdata.symm, hsum.symm, hgain.symm⟩

theorem sameOutput_of_outputJson [Numeric L] (hL : TellsScalars L)
    (h : node.outputJson.SeenAs other.outputJson) : node.SameOutput other := by
  unfold outputJson at h
  cases hnode : node.hasLeafVector <;> cases hother : other.hasLeafVector <;>
    simp only [hnode, hother, if_true, Bool.false_eq_true, if_false] at h
  case false.false =>
    refine ⟨?_, fun _ => (hL _ _ h).symm⟩
    rw [leafVector_of_hasLeafVector hnode, leafVector_of_hasLeafVector hother]
  case false.true => exact absurd h (scalar_not_array _ _).1
  case true.false => exact absurd h (scalar_not_array _ _).2
  case true.true => exact ⟨(hL.array _ _ h).symm, fun h => by rw [hnode] at h; cases h⟩

theorem sameTest_of_members [Numeric T] {rest rest' : List (String × Json)} (hT : TellsScalars T)
    (hkind : other.kind = node.kind)
    (h : List.Forall₂ MemberSeenAs (node.testJson ++ rest) (other.testJson ++ rest')) :
    (node.kind = .categoricalTest →
      other.categories = node.categories ∧ other.matchGoesRight = node.matchGoesRight) ∧
    (node.kind ≠ .categoricalTest →
      other.comparison = node.comparison ∧ other.threshold = node.threshold) ∧
    List.Forall₂ MemberSeenAs rest rest' := by
  simp only [testJson, hkind] at h
  split at h
  case isTrue hcategorical =>
    simp only [List.cons_append, List.nil_append, List.forall₂_cons] at h
    obtain ⟨hcategories, hmatch, hrest⟩ := h
    exact ⟨fun _ => ⟨(tells_uint32.array _ _ hcategories.2).symm, (tells_bool _ _ hmatch.2).symm⟩,
      fun hne => absurd hcategorical hne, hrest⟩
  case isFalse hnumerical =>
    simp only [List.cons_append, List.nil_append, List.forall₂_cons] at h
    obtain ⟨hcomparison, hthreshold, hrest⟩ := h
    exact ⟨fun heq => absurd heq hnumerical, fun _ => ⟨(tells_comparison _ _ hcomparison.2).symm,
      (hT _ _ hthreshold.2).symm⟩, hrest⟩

/-- Where two nodes are shown alike they are the same in everything that is shown. -/
theorem seenAs_of_toJson [Numeric T] [Numeric L] (hT : TellsScalars T) (hL : TellsScalars L)
    (h : (node.toJson nid).SeenAs (other.toJson nid')) : node.SeenAs other := by
  have hmembers := seenAs_object h
  cases hnode : node.isLeaf <;> cases hother : other.isLeaf <;>
    simp only [hnode, hother, if_true, Bool.false_eq_true, if_false, List.cons_append,
      List.nil_append, List.forall₂_cons, List.append_assoc] at hmembers
  case true.true =>
    obtain ⟨-, houtput, hstatistics⟩ := hmembers
    obtain ⟨hdata, hsum, hgain⟩ := sameStatistics_of_statisticsJson hstatistics
    exact ⟨hother.trans hnode.symm, fun _ => sameOutput_of_outputJson hL houtput.2,
      fun htest => absurd (htest.symm.trans hnode) Bool.false_ne_true, hdata, hsum, hgain⟩
  case false.false =>
    obtain ⟨-, hfeature, hdefault, hkind, htail⟩ := hmembers
    have hkind := (tells_kind _ _ hkind.2).symm
    obtain ⟨hcategorical, hnumerical, htail⟩ := sameTest_of_members hT hkind htail
    simp only [List.forall₂_cons] at htail
    obtain ⟨hleft, hright, hstatistics⟩ := htail
    obtain ⟨hdata, hsum, hgain⟩ := sameStatistics_of_statisticsJson hstatistics
    refine ⟨hother.trans hnode.symm,
      fun hleaf => absurd (hnode.symm.trans hleaf) Bool.false_ne_true,
      fun _ => ?_, hdata, hsum, hgain⟩
    exact ⟨(tells_uint32 _ _ hfeature.2).symm, (tells_bool _ _ hdefault.2).symm, hkind,
      hcategorical, hnumerical, (tells_int32 _ _ hleft.2).symm, (tells_int32 _ _ hright.2).symm⟩
  case true.false =>
    have hkey : "leaf_value" = "split_feature_id" := hmembers.2.1.1
    exact absurd hkey (by decide)
  case false.true =>
    have hkey : "split_feature_id" = "leaf_value" := hmembers.2.1.1
    exact absurd hkey (by decide)

end Node

namespace Tree

variable {T L : Type} {tree other : Tree T L}

/-- Two trees that are the same in everything that a dump shows of them. -/
structure SeenAs (tree other : Tree T L) : Prop where
  numNodes : other.numNodes = tree.numNodes
  hasCategoricalSplit : other.hasCategoricalSplit = tree.hasCategoricalSplit
  node : ∀ nid, Option.Rel Node.SeenAs (tree.node? nid) (other.node? nid)

private theorem rel_getElem? {α β : Type} {R : α → β → Prop} {xs : List α} {ys : List β}
    (h : List.Forall₂ R xs ys) (i : Nat) : Option.Rel R xs[i]? ys[i]? := by
  induction h generalizing i with
  | nil => exact .none
  | cons hxy _ ih =>
    cases i with
    | zero => exact .some hxy
    | succ i => exact ih i

private theorem forall₂_of_zipIdx {α β : Type} {R : α → β → Prop} {xs : List α} {ys : List β}
    (h : List.Forall₂ (fun x y => R x.1 y.1) xs.zipIdx ys.zipIdx) : List.Forall₂ R xs ys := by
  rw [← List.zipIdx_map_fst 0 xs, ← List.zipIdx_map_fst 0 ys, List.forall₂_map_left_iff,
    List.forall₂_map_right_iff]
  exact h

theorem seenAs_of_toJson [Numeric T] [Numeric L] (hT : TellsScalars T) (hL : TellsScalars L)
    (hc : tree.Checked) (hc' : other.Checked) (h : tree.toJson.SeenAs other.toJson) :
    tree.SeenAs other := by
  have hmembers := seenAs_object h
  simp only [List.forall₂_cons] at hmembers
  obtain ⟨hnum, hsplit, hnodes, -⟩ := hmembers
  have hall := seenAs_array hnodes.2
  rw [List.forall₂_map_left_iff, List.forall₂_map_right_iff] at hall
  have hseen : List.Forall₂ Node.SeenAs tree.nodes other.nodes :=
    forall₂_of_zipIdx (hall.imp fun _ _ => Node.seenAs_of_toJson hT hL)
  refine ⟨(tells_int32 _ _ hnum.2).symm, (tells_bool _ _ hsplit.2).symm, fun nid => ?_⟩
  rw [← getElem?_nodes hc, ← getElem?_nodes hc']
  exact rel_getElem? hseen nid

end Tree

/-- Two models of one pairing that are the same in everything that a dump shows of them. -/
inductive Model.SeenAs : Model → Model → Prop where
  | intro {pairing : Pairing} {trees others : Array (Tree pairing.Threshold pairing.Leaf)}
    {info : ModelInfo} {version version' : FormatVersion} {fields fields' : Int32}
    (h : List.Forall₂ Tree.SeenAs trees.toList others.toList) :
    Model.SeenAs ⟨pairing, trees, info, version, fields⟩ ⟨pairing, others, info, version', fields'⟩

namespace Model

variable {model other : Model}

private theorem tells_counts : Tells (numbersJson fun n : UInt32 => n.toNat) := tells_uint32.array

private theorem tells_ids : Tells (numbersJson Int32.toInt) := tells_int32.array

theorem info_eq_of_toJson (h : model.toJson.SeenAs other.toJson) : other.info = model.info := by
  have hmembers := seenAs_object h
  simp only [List.forall₂_cons] at hmembers
  obtain ⟨hnumFeature, htask, haverage, hnumTarget, hnumClass, hshape, htargetId, hclassId,
    hpostprocessor, hsigmoid, hratio, hbase, hattributes, -⟩ := hmembers
  obtain ⟨pairing, trees, info, version, fields⟩ := model
  obtain ⟨pairing', others, info', version', fields'⟩ := other
  cases info
  cases info'
  rw [ModelInfo.mk.injEq]
  exact ⟨(tells_int32 _ _ hnumFeature.2).symm,
    (tells_task _ _ htask.2).symm,
    (tells_bool _ _ haverage.2).symm,
    (tells_uint32 _ _ hnumTarget.2).symm,
    (tells_counts _ _ hnumClass.2).symm,
    (tells_counts _ _ hshape.2).symm,
    (tells_ids _ _ htargetId.2).symm,
    (tells_ids _ _ hclassId.2).symm,
    (tells_string _ _ hpostprocessor.2).symm,
    (tells_single _ _ hsigmoid.2).symm,
    (tells_single _ _ hratio.2).symm,
    (tells_double.array _ _ hbase.2).symm,
    (tells_string _ _ hattributes.2).symm⟩

theorem seenAs_of_toJson (hpairing : other.pairing = model.pairing)
    (hvalid : ∀ tree ∈ model.trees, tree.validate = .ok ())
    (hvalid' : ∀ tree ∈ other.trees, tree.validate = .ok ())
    (h : model.toJson.SeenAs other.toJson) : model.SeenAs other := by
  have hinfo := info_eq_of_toJson h
  have hmembers := seenAs_object h
  simp only [List.forall₂_cons] at hmembers
  obtain ⟨-, -, -, -, -, -, -, -, -, -, -, -, -, htrees, -⟩ := hmembers
  obtain ⟨pairing, trees, info, version, fields⟩ := model
  obtain ⟨pairing', others, info', version', fields'⟩ := other
  cases hpairing
  cases hinfo
  have hall := seenAs_array htrees.2
  rw [List.forall₂_map_left_iff, List.forall₂_map_right_iff] at hall
  refine ⟨(forall₂_with hall (fun tree htree => hvalid tree (Array.mem_toList_iff.mp htree))
    fun tree htree => hvalid' tree (Array.mem_toList_iff.mp htree)).imp
    fun tree other ⟨hok, hok', hseen⟩ => ?_⟩
  exact Tree.seenAs_of_toJson (tellsScalars_word _) (tellsScalars_leaf _) (.of_validate hok)
    (.of_validate hok') hseen

end Model

end Arboretum

import Arboretum.Proofs.Builder.Declaration
import Arboretum.Proofs.Builder.Invariant
import Arboretum.Proofs.Tree.Acceptance
import Mathlib.Data.List.Nodup

/-!
The open tree of a builder against what has been declared of it: it shows the declared nodes, with
no test pointing at its children yet. A new node and a call on the current one keep this up, and
when the tree is closed the keys of children turn into the numbers of the nodes.
-/

namespace Arboretum

variable {T : Type} [Score T]

def unnumbered (_ : Int32) : Int32 := noChild

namespace DeclaredNode

variable {declared : DeclaredNode} {request : Request}

theorem childKeys?_add_detail (h : declared.calls.filter Request.isDetail = [])
    (hrequest : request.isDetail = true) :
    (declared.add request).childKeys? = request.childKeys? := by
  rw [childKeys?, detail?_add_detail h hrequest, Option.bind_some]

theorem childKeys?_add (hrequest : request.isDetail = false) :
    (declared.add request).childKeys? = declared.childKeys? := by
  rw [childKeys?, detail?_add hrequest, childKeys?]

theorem childKeys?_of_none (h : declared.calls.filter Request.isDetail = []) :
    declared.childKeys? = none := by
  rw [childKeys?, detail?_of_none h, Option.bind_none]

end DeclaredNode

private theorem getElem?_concat {α : Type _} {l : List α} {a b : α} {i : Nat}
    (h : (l ++ [a])[i]? = some b) :
    l[i]? = some b ∨ i = l.length ∧ a = b := by
  rcases Nat.lt_or_ge i l.length with hlt | hge
  · rw [List.getElem?_append_left hlt] at h
    exact .inl h
  · rw [List.getElem?_append_right hge, List.getElem?_singleton] at h
    split at h
    · exact .inr ⟨by omega, Option.some.inj h⟩
    · cases h

theorem getElem?_idxOf_key {nodes : List DeclaredNode}
    (hkeys : (nodes.map DeclaredNode.key).Nodup) {declared : DeclaredNode}
    (hmem : declared ∈ nodes) :
    nodes[(nodes.map DeclaredNode.key).idxOf declared.key]? = some declared := by
  obtain ⟨i, hi, rfl⟩ := List.getElem_of_mem hmem
  have hplace : (nodes.map DeclaredNode.key).idxOf nodes[i].key = i := by
    rw [← List.getElem_map DeclaredNode.key (h := by rwa [List.length_map]), hkeys.idxOf_getElem]
  rw [hplace, List.getElem?_eq_getElem hi]

/-- A draft that shows the nodes of a declaration. -/
structure Draft.Follows (nodes : List DeclaredNode) (draft : Draft T) : Prop where
  keys : draft.keys.toList = nodes.map DeclaredNode.key
  childKeys : draft.childKeys.toList = nodes.map DeclaredNode.childKeys?
  distinct : (nodes.map DeclaredNode.key).Nodup
  numNodes : 0 ≤ draft.tree.numNodes
  count : draft.tree.nodeCount = nodes.length
  columnar : draft.tree.Columnar
  categorical : draft.tree.hasCategoricalSplit =
    nodes.any fun declared => declared.calls.any Request.isCategorical
  node : draft.tree.Bounded → ∀ (i : Nat) (declared : DeclaredNode), nodes[i]? = some declared →
    draft.tree.node? i = some (declared.node unnumbered)

namespace Draft.Follows

variable {draft : Draft T} {nodes done : List DeclaredNode} {last : DeclaredNode}

theorem empty : (Draft.empty : Draft T).Follows [] where
  keys := rfl
  childKeys := rfl
  distinct := List.nodup_nil
  numNodes := Int32.le_refl 0
  count := rfl
  columnar := by simp [Draft.empty, Tree.Columnar, Tree.columnSizes, Tree.empty, Tree.nodeCount]
  categorical := rfl
  node _ i declared h := by cases h

theorem current_eq (h : draft.Follows (done ++ [last])) : draft.current = done.length := by
  rw [Draft.current, ← Array.length_toList, h.keys, List.length_map, List.length_append]
  rfl

theorem push (h : draft.Follows nodes) {key : Int32} (hnew : key ∉ draft.keys)
    (hlt : draft.tree.numNodes < Int32.maxValue) :
    Draft.Follows (nodes ++ [⟨key, []⟩])
      ⟨draft.tree.pushNode, draft.keys.push key, draft.childKeys.push none⟩ := by
  obtain ⟨hpos, hcount⟩ := Tree.nodeCount_pushNode h.numNodes hlt
  obtain ⟨hold, hfresh⟩ := Tree.node?_pushNode h.columnar
  constructor
  · rw [Array.toList_push, h.keys, List.map_append]
    rfl
  · rw [Array.toList_push, h.childKeys, List.map_append]
    rfl
  · rw [List.map_append, ← h.keys]
    refine List.nodup_append.mpr ⟨h.keys ▸ h.distinct, List.nodup_singleton _, ?_⟩
    intro a ha b hb hab
    rw [List.map_singleton, List.mem_singleton] at hb
    rw [hab, hb] at ha
    exact hnew (Array.mem_toList_iff.mp ha)
  · exact hpos
  · show draft.tree.pushNode.nodeCount = _
    rw [hcount, h.count, List.length_append]
    rfl
  · exact Tree.columnar_pushNode h.numNodes hlt h.columnar
  · rw [List.any_append]
    exact h.categorical.trans (Bool.or_false _).symm
  · intro hb i declared hi
    rcases getElem?_concat hi with hi | ⟨rfl, rfl⟩
    · exact hold i _ (h.node ⟨hb.leafStore, hb.categoryStore⟩ i declared hi)
    · rw [← h.count]
      exact hfresh

theorem edit (h : draft.Follows (done ++ [last])) {request : Request} {tree : Tree T T}
    {childKeys : Array (Option (Int32 × Int32))} {change : Node T T → Node T T}
    (hedited : Tree.Edited draft.current change request.isCategorical draft.tree tree)
    (hnode : (last.add request).node unnumbered = change (last.node unnumbered))
    (hchildKeys : childKeys.toList =
      done.map DeclaredNode.childKeys? ++ [(last.add request).childKeys?]) :
    Draft.Follows (done ++ [last.add request]) ⟨tree, draft.keys, childKeys⟩ := by
  have hkeys : (done ++ [last.add request]).map DeclaredNode.key =
      (done ++ [last]).map DeclaredNode.key := by
    rw [List.map_append, List.map_append]
    rfl
  have hcurrent := h.current_eq
  constructor
  · rw [hkeys]
    exact h.keys
  · rw [hchildKeys, List.map_append]
    rfl
  · rw [hkeys]
    exact h.distinct
  · show 0 ≤ tree.numNodes
    rw [hedited.numNodes]
    exact h.numNodes
  · show tree.nodeCount = _
    rw [hedited.nodeCount_eq, h.count, List.length_append, List.length_append]
    rfl
  · exact hedited.columnar h.columnar
  · show tree.hasCategoricalSplit = _
    rw [hedited.categorical, h.categorical, List.any_append, List.any_append]
    simp [DeclaredNode.add, Bool.or_assoc]
  · intro hb i declared hi
    have hbefore := h.node (hedited.bounded hb)
    rcases getElem?_concat hi with hi | ⟨rfl, rfl⟩
    · obtain ⟨hlt, -⟩ := List.getElem?_eq_some_iff.mp hi
      refine hedited.other h.columnar hb i (by omega) _ (hbefore i declared ?_)
      rw [List.getElem?_append_left hlt, hi]
    · rw [hnode, ← hcurrent]
      refine hedited.self h.columnar hb _ (hbefore _ last ?_)
      rw [hcurrent, List.getElem?_concat_length]

private theorem nodeOf_eq_ok (h : draft.Follows nodes) {key : Int32} {nid : Nat}
    (hnid : draft.nodeOf key = .ok nid) : key ∈ nodes.map DeclaredNode.key ∧
      nid = (nodes.map DeclaredNode.key).idxOf key := by
  have hfind : draft.keys.findIdx? (· == key) =
      (nodes.map DeclaredNode.key).findIdx? (· == key) := by
    rw [← h.keys]
    exact List.findIdx?_toArray (· == key) draft.keys.toList
  rw [Draft.nodeOf, hfind] at hnid
  cases hkey : (nodes.map DeclaredNode.key).findIdx? (· == key) with
  | none =>
    rw [hkey] at hnid
    cases hnid
  | some found =>
    rw [hkey] at hnid
    cases hnid
    obtain ⟨hlt, hfound⟩ := List.findIdx?_eq_some_iff_findIdx_eq.mp hkey
    refine ⟨List.idxOf_lt_length_iff.mp ?_, hfound.symm⟩
    rw [List.idxOf, hfound]
    exact hlt

private theorem nodeOf_of_mem (h : draft.Follows nodes) {key : Int32}
    (hkey : key ∈ nodes.map DeclaredNode.key) :
    draft.nodeOf key = .ok ((nodes.map DeclaredNode.key).idxOf key) := by
  cases hnid : draft.nodeOf key with
  | error e =>
    rw [Draft.nodeOf] at hnid
    split at hnid
    · cases hnid
    · next hnone =>
      rw [← h.keys, Array.mem_toList_iff] at hkey
      rw [Array.findIdx?_eq_none_iff] at hnone
      exact absurd (hnone key hkey) (by simp)
  | ok nid => rw [(h.nodeOf_eq_ok hnid).2]

private theorem mem_tests (h : draft.Follows nodes) {nid : Nat} {left right : Int32} :
    (nid, left, right) ∈ (draft.childKeys.toList.zipIdx.filterMap fun entry =>
        entry.1.map (entry.2, ·)) ↔
      ∃ declared, nodes[nid]? = some declared ∧ declared.childKeys? = some (left, right) := by
  rw [List.mem_filterMap]
  constructor
  · rintro ⟨⟨keys, i⟩, hmem, hkeys⟩
    obtain ⟨pair, rfl, hpair⟩ := Option.map_eq_some_iff.mp hkeys
    cases hpair
    rw [List.mem_zipIdx_iff_getElem?, h.childKeys, List.getElem?_map] at hmem
    exact Option.map_eq_some_iff.mp hmem
  · rintro ⟨declared, hdeclared, hkeys⟩
    refine ⟨(some (left, right), nid), ?_, rfl⟩
    rw [List.mem_zipIdx_iff_getElem?, h.childKeys, List.getElem?_map, hdeclared, Option.map_some,
      hkeys]

/-- Where all keys of children are known, each test is linked to the nodes with these keys. -/
theorem links_eq_ok (h : draft.Follows nodes) {links : List (Nat × Nat × Nat)}
    (hlinks : draft.links = .ok links) :
    (∀ (nid : Nat) (declared : DeclaredNode) (left right : Int32), nodes[nid]? = some declared →
      declared.childKeys? = some (left, right) →
      left ∈ nodes.map DeclaredNode.key ∧ right ∈ nodes.map DeclaredNode.key ∧
        (nid, (nodes.map DeclaredNode.key).idxOf left,
          (nodes.map DeclaredNode.key).idxOf right) ∈ links) ∧
    ∀ entry ∈ links, ∃ declared left right, nodes[entry.1]? = some declared ∧
      declared.childKeys? = some (left, right) ∧
      entry.2 = ((nodes.map DeclaredNode.key).idxOf left,
        (nodes.map DeclaredNode.key).idxOf right) := by
  rw [Draft.links] at hlinks
  obtain ⟨hto, hfrom⟩ := mem_of_mapM_eq_ok hlinks
  have hentry : ∀ (nid : Nat) (left right : Int32) (entry : Nat × Nat × Nat),
      (do return (nid, ← draft.nodeOf left, ← draft.nodeOf right) : Result _) = .ok entry →
      left ∈ nodes.map DeclaredNode.key ∧ right ∈ nodes.map DeclaredNode.key ∧
        entry = (nid, (nodes.map DeclaredNode.key).idxOf left,
          (nodes.map DeclaredNode.key).idxOf right) := by
    intro nid left right entry hok
    obtain ⟨l, hl, hok⟩ := bind_eq_ok.mp hok
    obtain ⟨r, hr, hok⟩ := bind_eq_ok.mp hok
    cases hok
    obtain ⟨hleft, rfl⟩ := h.nodeOf_eq_ok hl
    obtain ⟨hright, rfl⟩ := h.nodeOf_eq_ok hr
    exact ⟨hleft, hright, rfl⟩
  constructor
  · intro nid declared left right hdeclared hkeys
    obtain ⟨entry, hmem, hok⟩ :=
      hto (nid, left, right) (h.mem_tests.mpr ⟨declared, hdeclared, hkeys⟩)
    obtain ⟨hleft, hright, rfl⟩ := hentry nid left right entry hok
    exact ⟨hleft, hright, hmem⟩
  · intro entry hmem
    obtain ⟨⟨nid, left, right⟩, htest, hok⟩ := hfrom entry hmem
    obtain ⟨declared, hdeclared, hkeys⟩ := h.mem_tests.mp htest
    obtain ⟨-, -, rfl⟩ := hentry nid left right entry hok
    exact ⟨declared, left, right, hdeclared, hkeys, rfl⟩

theorem links_ok (h : draft.Follows nodes)
    (hchildren : ∀ declared ∈ nodes, ∀ left right, declared.childKeys? = some (left, right) →
      left ∈ nodes.map DeclaredNode.key ∧ right ∈ nodes.map DeclaredNode.key) :
    ∃ links, draft.links = .ok links := by
  let place (key : Int32) := (nodes.map DeclaredNode.key).idxOf key
  refine ⟨_, mapM_eq_ok (g := fun entry => (entry.1, place entry.2.1, place entry.2.2))
    fun entry hentry => ?_⟩
  obtain ⟨declared, hdeclared, hkeys⟩ := h.mem_tests.mp hentry
  obtain ⟨hleft, hright⟩ := hchildren declared (List.mem_of_getElem? hdeclared) _ _ hkeys
  simp only [h.nodeOf_of_mem hleft, h.nodeOf_of_mem hright, ok_bind, pure_eq_ok, place]

/-- A tree can be closed when its keys of children are known and it passes the check. -/
theorem finish_ok (h : draft.Follows nodes) {links : List (Nat × Nat × Nat)}
    (hlinks : draft.links = .ok links) (hvalid : (draft.tree.linkAll links).validate = .ok ()) :
    draft.finish = .ok (draft.tree.linkAll links) := by
  obtain ⟨hto, hfrom⟩ := h.links_eq_ok hlinks
  have hplace : ∀ key ∈ nodes.map DeclaredNode.key,
      (nodes.map DeclaredNode.key).idxOf key < draft.tree.nodeCount := by
    intro key hkey
    rw [h.count, ← List.length_map DeclaredNode.key]
    exact List.idxOf_lt_length_of_mem hkey
  have hthere : ∀ entry ∈ links, entry.1 < draft.tree.nodeCount ∧
      entry.2.1 < draft.tree.nodeCount ∧ entry.2.2 < draft.tree.nodeCount := by
    intro entry hentry
    obtain ⟨declared, left, right, hdeclared, hkeys, hnumbers⟩ := hfrom entry hentry
    obtain ⟨hleft, hright, -⟩ := hto entry.1 declared left right hdeclared hkeys
    obtain ⟨hlt, -⟩ := List.getElem?_eq_some_iff.mp hdeclared
    rw [hnumbers]
    exact ⟨h.count ▸ hlt, hplace left hleft, hplace right hright⟩
  obtain ⟨_, tree, hset⟩ := Tree.setAllChildren_succeeds hthere
  rw [Draft.finish, hlinks, ok_bind, hset]
  obtain rfl := Tree.apply_setAllChildren hset
  exact then_eq_ok.mpr ⟨rfl, then_eq_ok.mpr ⟨hvalid, rfl⟩⟩

/-- The tests of a declared tree point at the nodes that they name, once they are linked. -/
theorem built_of_links (h : draft.Follows nodes)
    (hcomplete : ∀ declared ∈ nodes, declared.Complete) {links : List (Nat × Nat × Nat)}
    (hlinks : draft.links = .ok links) (hb : (draft.tree.linkAll links).Bounded) :
    Built nodes (draft.tree.linkAll links) := by
  obtain ⟨hto, hfrom⟩ := h.links_eq_ok hlinks
  obtain ⟨leftColumn, rightColumn, hcolumns⟩ := Tree.linkAll_eq links draft.tree
  have hshown := h.node (by
    rw [hcolumns] at hb
    exact ⟨hb.leafStore, hb.categoryStore⟩)
  refine ⟨?_, h.distinct, hcomplete, ?_, ?_, ?_⟩
  · rw [Tree.nodeCount_linkAll, h.count]
  · intro declared hmem left right hkeys
    obtain ⟨nid, hnid⟩ := List.getElem?_of_mem hmem
    obtain ⟨hleft, hright, -⟩ := hto nid declared left right hnid hkeys
    exact ⟨hleft, hright⟩
  · rw [hcolumns]
    show draft.tree.hasCategoricalSplit = true ↔ _
    rw [h.categorical]
    simp
  · intro i declared hi
    have hnode := hshown i declared hi
    cases hkeys : declared.childKeys? with
    | none =>
      rw [declared.node_of_no_childKeys? hkeys (numberOf nodes) unnumbered]
      refine Tree.node?_linkAll_other hnode fun entry hmem hentry => ?_
      obtain ⟨other, left, right, hother, hsome, -⟩ := hfrom entry hmem
      rw [hentry, hi] at hother
      cases hother
      rw [hkeys] at hsome
      cases hsome
    | some pair =>
      obtain ⟨left, right⟩ := pair
      obtain ⟨-, -, hmem⟩ := hto i declared left right hi hkeys
      rw [declared.node_of_childKeys? hkeys (numberOf nodes) unnumbered]
      refine Tree.node?_linkAll hnode hmem fun entry hin hentry => ?_
      obtain ⟨other, l, r, hother, hsome, heq⟩ := hfrom entry hin
      rw [hentry, hi] at hother
      cases hother
      rw [hkeys] at hsome
      cases hsome
      exact Prod.ext hentry heq

theorem built (h : draft.Follows nodes) (hcomplete : ∀ declared ∈ nodes, declared.Complete)
    {tree : Tree T T} (hfinish : draft.finish = .ok tree) (hb : tree.Bounded) :
    Built nodes tree := by
  obtain ⟨links, hlinks, rfl, -⟩ := Builder.finish_eq_ok hfinish
  exact h.built_of_links hcomplete hlinks hb

end Draft.Follows

end Arboretum

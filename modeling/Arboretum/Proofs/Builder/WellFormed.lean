import Arboretum.Proofs.Builder.Stage
import Arboretum.Proofs.Tree.Parents
import Arboretum.Proofs.Tree.Shape
import Mathlib.Logic.Relation

/-!
Which declarations of a tree can be closed. The check of the closed tree walks over the numbers of
nodes and knows nothing of keys; here its verdict is told by the keys that were declared and the
keys that were named as children.
-/

namespace Arboretum

/-- The keys that the test of a node gives for its children, the left one first. -/
def DeclaredNode.children (declared : DeclaredNode) : List Int32 :=
  declared.childKeys?.elim [] fun (left, right) => [left, right]

/-- The keys that all tests give for children, each as often as it is given. -/
def childKeyUses (nodes : List DeclaredNode) : List Int32 := nodes.flatMap DeclaredNode.children

def NamesChild (nodes : List DeclaredNode) (parent child : Int32) : Prop :=
  ∃ declared ∈ nodes, declared.key = parent ∧ child ∈ declared.children

/-- A declaration of a tree with the node that was declared first as its root. -/
structure WellFormed (nodes : List DeclaredNode) : Prop where
  nonempty : nodes ≠ []
  declared : ∀ key ∈ childKeyUses nodes, key ∈ nodes.map DeclaredNode.key
  root : ∀ first ∈ nodes.head?, first.key ∉ childKeyUses nodes
  once : ∀ other ∈ nodes.tail, (childKeyUses nodes).count other.key = 1
  reached : ∀ first ∈ nodes.head?, ∀ declared ∈ nodes,
    Relation.ReflTransGen (NamesChild nodes) first.key declared.key

private theorem forall_childKeyUses {nodes : List DeclaredNode} {p : Int32 → Prop} :
    (∀ key ∈ childKeyUses nodes, p key) ↔ ∀ declared ∈ nodes, ∀ left right,
      declared.childKeys? = some (left, right) → p left ∧ p right := by
  simp only [childKeyUses, List.forall_mem_flatMap, DeclaredNode.children]
  refine forall₂_congr fun declared _ => ?_
  cases declared.childKeys? with
  | none => simp
  | some pair => simp [Prod.ext_iff]

section Nodes

variable {T L : Type} [Numeric T] [Numeric L]

private theorem DeclaredNode.node_shape (number : Int32 → Int32) (declared : DeclaredNode) :
    declared.childKeys? = none ∧ (declared.node number : Node T L).kind = .leaf ∧
        (declared.node number : Node T L).left = noChild ∧
        (declared.node number : Node T L).right = noChild ∨
      ∃ left right, declared.childKeys? = some (left, right) ∧
        (declared.node number : Node T L).kind ≠ .leaf ∧
        (declared.node number : Node T L).left = number left ∧
        (declared.node number : Node T L).right = number right := by
  rw [childKeys?, node]
  cases declared.detail? with
  | none => exact .inl ⟨rfl, rfl, rfl, rfl⟩
  | some request =>
    cases request with
    | numericalTest _ _ _ _ left right =>
      refine .inr ⟨left, right, rfl, ?_, rfl, rfl⟩
      simp [Request.described]
    | categoricalTest _ _ _ _ left right =>
      refine .inr ⟨left, right, rfl, ?_, rfl, rfl⟩
      simp [Request.described]
    | _ => exact .inl ⟨rfl, rfl, rfl, rfl⟩

end Nodes

private theorem count_map_idxOf {keys uses : List Int32} (huses : ∀ key ∈ uses, key ∈ keys)
    (key : Int32) :
    (uses.map keys.idxOf).count (keys.idxOf key) = uses.count key := by
  rw [List.count_eq_countP, List.count_eq_countP, List.countP_map]
  refine List.countP_congr fun use huse => ?_
  simp only [Function.comp_apply, beq_iff_eq, List.idxOf_inj (huses use huse)]

namespace Built

variable {T L : Type} [Numeric T] [Numeric L] {nodes : List DeclaredNode} {tree : Tree T L}

private theorem idxOf_lt (h : Built nodes tree) {key : Int32}
    (hkey : key ∈ nodes.map DeclaredNode.key) :
    (nodes.map DeclaredNode.key).idxOf key < tree.nodeCount := by
  rw [h.count, ← List.length_map DeclaredNode.key]
  exact List.idxOf_lt_length_of_mem hkey

private theorem forall_lt_iff (h : Built nodes tree) {p : Nat → Prop} :
    (∀ nid < tree.nodeCount, p nid) ↔
      ∀ declared ∈ nodes, p ((nodes.map DeclaredNode.key).idxOf declared.key) := by
  constructor
  · intro hall declared hmem
    exact hall _ (h.idxOf_lt (List.mem_map_of_mem hmem))
  · intro hall nid hnid
    rw [h.count] at hnid
    have hplace : (nodes.map DeclaredNode.key).idxOf nodes[nid].key = nid := by
      rw [← List.getElem_map DeclaredNode.key (h := by rwa [List.length_map]),
        h.keys.idxOf_getElem]
    exact hplace ▸ hall nodes[nid] (List.getElem_mem hnid)

/-- The nodes of a built tree pass all checks but the one for a single root. -/
theorem checked (h : Built nodes tree) (hpos : 0 ≤ tree.numNodes) (hc : tree.Columnar)
    (hranges : tree.RangesFit) : tree.Checked := by
  refine ⟨hc, (Tree.forall_soundAt_iff hpos hc).mpr ⟨hranges, ?_⟩⟩
  intro nid kind left right hkind hleft hright
  have hnid : nid < nodes.length := h.count ▸ lt_of_getElem? hc.columns.kind hkind
  have hnode := h.node nid _ (List.getElem?_eq_getElem hnid)
  obtain ⟨hk, hl, hr, -⟩ := Tree.node?_eq_some_iff.mp hnode
  cases hk.symm.trans hkind
  cases hl.symm.trans hleft
  cases hr.symm.trans hright
  rcases nodes[nid].node_shape (T := T) (L := L) (numberOf nodes) with
    ⟨-, hk, hl, hr⟩ | ⟨l, r, hkeys, hk, hl, hr⟩
  · exact .inl ⟨hk, hl, hr⟩
  · obtain ⟨hleft, hright⟩ := h.children _ (List.getElem_mem hnid) l r hkeys
    refine .inr ⟨hk, ?_, ?_⟩
    · rw [hl]
      exact Tree.hasNode_ofNat (h.idxOf_lt hleft)
    · rw [hr]
      exact Tree.hasNode_ofNat (h.idxOf_lt hright)

theorem below_eq (h : Built nodes tree) (hc : tree.Checked) {nid : Nat} {declared : DeclaredNode}
    (hdeclared : nodes[nid]? = some declared) :
    tree.below nid = declared.children.map (nodes.map DeclaredNode.key).idxOf := by
  rw [Tree.below_eq hc (h.node nid declared hdeclared), DeclaredNode.children]
  rcases declared.node_shape (T := T) (L := L) (numberOf nodes) with
    ⟨hkeys, -, hl, -⟩ | ⟨left, right, hkeys, -, hl, hr⟩
  · rw [if_pos hl, hkeys]
    rfl
  · obtain ⟨hleft, hright⟩ :=
      h.children declared (List.mem_of_getElem? hdeclared) left right hkeys
    have hltLeft := h.idxOf_lt hleft
    have hltRight := h.idxOf_lt hright
    rw [hl, hr, numberOf, numberOf, if_neg (Tree.hasNode_ofNat hltLeft).ne_noChild,
      Tree.toNat_ofNat_of_lt hltLeft, Tree.toNat_ofNat_of_lt hltRight, hkeys]
    rfl

theorem childUses_eq (h : Built nodes tree) (hc : tree.Checked) :
    tree.childUses = (childKeyUses nodes).map (nodes.map DeclaredNode.key).idxOf := by
  have heach : (List.range tree.nodeCount).map tree.below =
      nodes.map fun declared => declared.children.map (nodes.map DeclaredNode.key).idxOf := by
    refine List.ext_getElem? fun nid => ?_
    rw [List.getElem?_map, List.getElem?_map]
    by_cases hnid : nid < nodes.length
    · rw [List.getElem?_range (h.count ▸ hnid), List.getElem?_eq_getElem hnid, Option.map_some,
        Option.map_some, h.below_eq hc (List.getElem?_eq_getElem hnid)]
    · rw [List.getElem?_eq_none (by rw [List.length_range, h.count]; omega),
        List.getElem?_eq_none (by omega)]
      rfl
  rw [Tree.childUses, childKeyUses, List.map_flatMap, List.flatMap_def, heach, List.flatMap_def]

/-- A path in the tree is a chain of keys, each of them given for a child of the one before. -/
theorem reaches_iff (h : Built nodes tree) (hc : tree.Checked) {declared : DeclaredNode}
    (hdeclared : declared ∈ nodes) (goal : DeclaredNode) :
    tree.Reaches ((nodes.map DeclaredNode.key).idxOf declared.key)
        ((nodes.map DeclaredNode.key).idxOf goal.key) ↔
      Relation.ReflTransGen (NamesChild nodes) declared.key goal.key := by
  have hkeys : ∀ {parent : DeclaredNode} {key : Int32}, parent ∈ nodes → key ∈ parent.children →
      ∃ child ∈ nodes, child.key = key := by
    intro parent key hparent hkey
    have hall := (forall_childKeyUses (p := (· ∈ nodes.map DeclaredNode.key))).mpr h.children
    exact List.mem_map.mp (hall key (List.mem_flatMap.mpr ⟨parent, hparent, hkey⟩))
  constructor
  · rintro ⟨path, hpath⟩
    induction path generalizing declared with
    | nil =>
      have hsame := Option.some.inj hpath
      rw [List.idxOf_inj (List.mem_map_of_mem hdeclared)] at hsame
      rw [hsame]
    | cons side path ih =>
      obtain ⟨child, hchild, hrest⟩ := Tree.follow?_cons_eq_some.mp hpath
      have hmem := Tree.mem_below.mpr ⟨side, hchild⟩
      rw [h.below_eq hc (getElem?_idxOf_key h.keys hdeclared)] at hmem
      obtain ⟨key, hkey, rfl⟩ := List.mem_map.mp hmem
      obtain ⟨next, hnext, rfl⟩ := hkeys hdeclared hkey
      exact .head ⟨declared, hdeclared, rfl, hkey⟩ (ih hnext hrest)
  · intro hchain
    generalize declared.key = start at hchain ⊢
    induction hchain using Relation.ReflTransGen.head_induction_on with
    | refl => exact .refl tree _
    | head hnames _ ih =>
      obtain ⟨parent, hparent, hsame, hchild⟩ := hnames
      refine .of_child ?_ ih
      rw [← hsame, h.below_eq hc (getElem?_idxOf_key h.keys hparent)]
      exact List.mem_map_of_mem hchild

/-- What parents say of a built tree, told by keys. -/
theorem wellFormed_iff (h : Built nodes tree) (hc : tree.Checked) (hpos : 0 < tree.nodeCount) :
    (0 ∉ tree.childUses ∧
      (∀ nid < tree.nodeCount, 0 < nid → tree.childUses.count nid = 1) ∧
      ∀ nid < tree.nodeCount, tree.Reaches 0 nid) ↔ WellFormed nodes := by
  have hdeclared := (forall_childKeyUses (p := (· ∈ nodes.map DeclaredNode.key))).mpr h.children
  have hcount := count_map_idxOf hdeclared
  rw [← h.childUses_eq hc] at hcount
  rw [h.forall_lt_iff, h.forall_lt_iff]
  cases nodes with
  | nil =>
    rw [h.count] at hpos
    exact absurd hpos (Nat.lt_irrefl 0)
  | cons first rest =>
    have hfirst : (List.map DeclaredNode.key (first :: rest)).idxOf first.key = 0 :=
      List.idxOf_cons_self
    have hroot : 0 ∉ tree.childUses ↔ first.key ∉ childKeyUses (first :: rest) := by
      rw [← List.count_eq_zero, ← List.count_eq_zero, ← hcount, hfirst]
    have hlater : ∀ other ∈ rest,
        0 < (List.map DeclaredNode.key (first :: rest)).idxOf other.key := by
      intro other hother
      rw [Nat.pos_iff_ne_zero, ← hfirst, Ne,
        List.idxOf_inj (List.mem_map_of_mem (List.mem_cons_of_mem first hother))]
      have hnew := (List.nodup_cons.mp h.keys).1
      exact fun hsame => hnew (hsame ▸ List.mem_map_of_mem hother)
    have hreaches := h.reaches_iff hc (List.mem_cons_self (a := first) (l := rest))
    rw [hfirst] at hreaches
    constructor
    · rintro ⟨hzero, honce, hreach⟩
      refine ⟨List.cons_ne_nil _ _, hdeclared, ?_, fun other hother => ?_, ?_⟩
      · rintro _ ⟨⟩
        exact hroot.mp hzero
      · rw [← hcount]
        exact honce other (List.mem_cons_of_mem first hother) (hlater other hother)
      · rintro _ ⟨⟩ other hother
        exact (hreaches other).mp (hreach other hother)
    · rintro ⟨-, -, hzero, honce, hreach⟩
      refine ⟨hroot.mpr (hzero first rfl), fun other hother hne => ?_, fun other hother => ?_⟩
      · rw [hcount]
        rcases List.mem_cons.mp hother with rfl | hother
        · exact absurd hne (by rw [hfirst]; exact Nat.lt_irrefl 0)
        · exact honce other hother
      · exact (hreaches other).mpr (hreach first rfl other hother)

end Built

namespace Draft.Follows

variable {T : Type} [Score T] {draft : Draft T} {nodes : List DeclaredNode}

/-- What the check of a linked tree decides, told by the declaration. -/
theorem validate_iff_wellFormed (h : draft.Follows nodes) (hnonempty : 0 < draft.tree.nodeCount)
    (hcomplete : ∀ declared ∈ nodes, declared.Complete) (hstocked : Stocked nodes draft.tree)
    (hb : draft.tree.Bounded) {links : List (Nat × Nat × Nat)} (hlinks : draft.links = .ok links) :
    (draft.tree.linkAll links).validate = .ok () ↔ WellFormed nodes := by
  obtain ⟨left, right, hlinked⟩ := Tree.linkAll_eq links draft.tree
  have hpos : 0 ≤ (draft.tree.linkAll links).numNodes := by
    rw [hlinked]
    exact h.numNodes
  have hb' : (draft.tree.linkAll links).Bounded := by
    rw [hlinked]
    exact ⟨hb.leafStore, hb.categoryStore⟩
  have hc := Tree.columnar_linkAll links h.columnar
  have hbuilt := h.built_of_links hcomplete hlinks hb'
  have hchecked := hbuilt.checked hpos hc ((hstocked.linkAll links).ranges hb')
  have hcount : 0 < (draft.tree.linkAll links).nodeCount := by
    rwa [Tree.nodeCount_linkAll]
  rw [← hbuilt.wellFormed_iff hchecked hcount, ← Tree.existsUnique_path_iff hchecked hcount,
    ← Tree.checkSingleRooted_eq_ok hchecked hcount, Tree.validate_eq_ok]
  constructor
  · rintro ⟨-, -, -, hrooted⟩
    exact hrooted hcount
  · intro hrooted
    exact ⟨hpos, hc, hchecked.sound, fun _ => hrooted⟩

end Draft.Follows

namespace Builder

/-- A tree can be closed exactly when its declaration is well formed. -/
theorem Stands.endTree_iff {start b : Builder} {declaration : Declaration}
    (h : Stands start declaration .expectNode b) (hb : b.draft.tree.Bounded) :
    endTree.Succeeds b ↔ WellFormed declaration.nodes := by
  have hdraft := h.follows.draft
  have hcomplete : Phased declaration.nodes .expectNode := h.phase_eq ▸ h.follows.phase
  constructor
  · rintro ⟨_, after, hok⟩
    obtain ⟨-, hpos, tree, hfinish, -⟩ := (endTree_leads b).goal_of_ok hok
    obtain ⟨links, hlinks, rfl, hvalid⟩ := finish_eq_ok hfinish
    exact (hdraft.validate_iff_wellFormed hpos hcomplete h.vetted.draft hb hlinks).mp hvalid
  · intro hwell
    have hpos : 0 < b.draft.tree.nodeCount := by
      rw [hdraft.count]
      exact List.length_pos_iff.mpr hwell.nonempty
    obtain ⟨links, hlinks⟩ := hdraft.links_ok (forall_childKeyUses.mp hwell.declared)
    have hvalid :=
      (hdraft.validate_iff_wellFormed hpos hcomplete h.vetted.draft hb hlinks).mpr hwell
    exact endTree_of_finish h.phase_eq hpos (hdraft.finish_ok hlinks hvalid)

/-- Whatever calls have been made, refused ones among them, the open tree can be closed exactly when
the accepted calls have declared a well-formed tree. -/
theorem endTree_succeeds_iff_wellFormed {threshold leaf : ValueType} {metadata : Metadata}
    {routing : TreeRouting} {choice : PostprocessorChoice} {baseScores : Array Double}
    {attributes : Option String} {start : Builder} (requests : List Request)
    (hcreate : create threshold leaf metadata routing choice baseScores attributes = .ok start)
    (hphase : (start.run requests).phase = .expectNode)
    (hmemory : (start.run requests).draft.tree.Bounded) :
    endTree.Succeeds (start.run requests) ↔
      WellFormed (Declaration.ofCalls (start.accepted requests)).nodes := by
  have hstands := run_stands requests (create_stands hcreate)
  rw [hphase] at hstands
  exact hstands.endTree_iff hmemory

/-- A leaf, and apart from it two tests that name each other: none of their nodes is a child twice,
and none can be reached. -/
def detachedCalls : List Request :=
  [.startTree, .startNode 9, .leafScalar Score.one, .endNode,
    .startNode 1, .numericalTest 0 Score.one true .less 2 3, .endNode,
    .startNode 2, .numericalTest 0 Score.one true .less 1 4, .endNode,
    .startNode 3, .leafScalar ⟨0⟩, .endNode, .startNode 4, .leafScalar ⟨0⟩, .endNode]

private theorem exists_created (created : Result Builder) (p : Builder → Prop) [DecidablePred p]
    (h : (do
      let start ← created
      pure (decide (p start))) = .ok true) : ∃ start, created = .ok start ∧ p start := by
  obtain ⟨start, hstart, h⟩ := bind_eq_ok.mp h
  exact ⟨start, hstart, of_decide_eq_true (Except.ok.inj h)⟩

/-- The cycle cannot be closed, though every node but the first is a child once. The tree whose root
names its children before they are declared can. -/
theorem endTree_succeeds_iff_wellFormed_detached :
    ∃ start, stump 0 0 = .ok start ∧
      (childKeyUses (Declaration.ofCalls (start.accepted detachedCalls)).nodes).Perm [1, 2, 3, 4] ∧
      ¬ WellFormed (Declaration.ofCalls (start.accepted detachedCalls)).nodes ∧
      WellFormed (Declaration.ofCalls (start.accepted (reversedCalls.take 17))).nodes := by
  obtain ⟨start, hcreate, huses, hphase, hleaf, hcategory, hrefused, hphase', hleaf', hcategory',
      haccepted⟩ := exists_created (stump 0 0)
    (fun start =>
      childKeyUses (Declaration.ofCalls (start.accepted detachedCalls)).nodes = [2, 3, 1, 4] ∧
      (start.run detachedCalls).phase = .expectNode ∧
      (start.run detachedCalls).draft.tree.leafStore.size < UInt64.size ∧
      (start.run detachedCalls).draft.tree.categoryStore.size < UInt64.size ∧
      (endTree.apply (start.run detachedCalls)).1 ≠ .ok () ∧
      (start.run (reversedCalls.take 17)).phase = .expectNode ∧
      (start.run (reversedCalls.take 17)).draft.tree.leafStore.size < UInt64.size ∧
      (start.run (reversedCalls.take 17)).draft.tree.categoryStore.size < UInt64.size ∧
      (endTree.apply (start.run (reversedCalls.take 17))).1 = .ok ())
    (by decide +kernel)
  refine ⟨start, hcreate, ?_, fun hwell => ?_, ?_⟩
  · rw [huses]
    decide
  · obtain ⟨_, after, hok⟩ := (endTree_succeeds_iff_wellFormed detachedCalls hcreate hphase
      ⟨hleaf, hcategory⟩).mpr hwell
    exact hrefused (congrArg Prod.fst hok)
  · exact (endTree_succeeds_iff_wellFormed (reversedCalls.take 17) hcreate hphase'
      ⟨hleaf', hcategory'⟩).mp (.of_fst haccepted)

end Builder

end Arboretum

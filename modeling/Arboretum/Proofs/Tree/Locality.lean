import Arboretum.Proofs.Tree.History

/-!
What a call leaves alone. The lists of all nodes lie in two stores that only grow, and new
categories move the ranges of all later nodes; all the same, a call about one node changes nothing
that any other node shows, whatever has happened to the tree before.
-/

namespace Arboretum

variable {T L : Type}

namespace Change

/-- The node that a call is about. Starting over and appending a node are about none. -/
def target? : Change T L → Option Nat
  | reset => none
  | allocNode => none
  | addChildren nid => some nid
  | setChildren nid _ _ => some nid
  | setNumericalSplit nid _ _ _ _ => some nid
  | setCategoricalSplit nid _ _ _ _ => some nid
  | setLeaf nid _ => some nid
  | setLeafVector nid _ => some nid
  | setDataCount nid _ => some nid
  | setSumHess nid _ => some nid
  | setGain nid _ => some nid

/-- What a call makes of the node that it is about, in a tree with a number of nodes. -/
def outcome (count : Nat) : Change T L → Node T L → Node T L
  | reset, node => node
  | allocNode, node => node
  | addChildren _, node => { node with left := .ofNat count, right := .ofNat (count + 1) }
  | setChildren _ left right, node => { node with left := .ofNat left, right := .ofNat right }
  | setNumericalSplit _ feature threshold defaultLeft comparison, node => { node with
    kind := .numericalTest
    feature := feature
    defaultLeft := defaultLeft
    threshold := threshold
    comparison := comparison
    matchGoesRight := false }
  | setCategoricalSplit _ feature defaultLeft categories matchGoesRight, node => { node with
    kind := .categoricalTest
    feature := feature
    defaultLeft := defaultLeft
    comparison := .never
    categories := (categories.mergeSort (· ≤ ·)).toArray
    matchGoesRight := matchGoesRight }
  | setLeaf _ value, node => { node with
    kind := .leaf
    left := noChild
    right := noChild
    leafValue := value
    leafVector := #[] }
  | setLeafVector _ values, node => { node with
    kind := .leaf
    left := noChild
    right := noChild
    leafVector := values }
  | setDataCount _ count, node => { node with dataCount := some count }
  | setSumHess _ sum, node => { node with sumHess := some sum }
  | setGain _ gain, node => { node with gain := some gain }

end Change

namespace Tree

/-- One node has been changed, and every other one that was there shows what it showed. -/
structure Touched (nid : Nat) (change : Node T L → Node T L) (before after : Tree T L) :
    Prop where
  self : ∃ node, before.node? nid = some node ∧ after.node? nid = some (change node)
  other : ∀ m < before.nodeCount, m ≠ nid →
    ∃ node, before.node? m = some node ∧ after.node? m = some node

variable {tree before after : Tree T L} {nid : Nat}

private theorem lt_of_checkNode_bind {next : Unit → Edit (Tree T L) Unit}
    (hok : (checkNode nid >>= next).apply tree = (.ok (), after)) : nid < tree.nodeCount := by
  obtain ⟨_, middle, hcheck, -⟩ := Edit.apply_bind_eq_ok.mp hok
  have hleads : (checkNode nid : Edit (Tree T L) Unit).Leads tree fun _ _ => nid < tree.nodeCount :=
    .get_bind (.require fun hnid => hnid)
  exact hleads.goal_of_ok hcheck

theorem WellKept.touched (h : before.WellKept) (hnid : nid < before.nodeCount)
    {change : Node T L → Node T L}
    (hself : ∀ node, before.node? nid = some node → after.node? nid = some (change node))
    (hother : ∀ m ≠ nid, ∀ node, before.node? m = some node → after.node? m = some node) :
    Touched nid change before after where
  self := by
    obtain ⟨node, hnode, -⟩ := h.nodes nid hnid
    exact ⟨node, hnode, hself node hnode⟩
  other := by
    intro m hm hne
    obtain ⟨node, hnode, -⟩ := h.nodes m hm
    exact ⟨node, hnode, hother m hne node hnode⟩

theorem Edited.touched {change : Node T L → Node T L} {categorical : Bool}
    (h : Edited nid change categorical before after) (hkept : before.Kept) (hb : after.Bounded)
    (hnid : nid < before.nodeCount) : Touched nid change before after := by
  have hwell := hkept (h.bounded hb)
  exact hwell.touched hnid (h.self hwell.columnar hb) (h.other hwell.columnar hb)

private theorem WellKept.touched_link (h : tree.WellKept) (hnid : nid < tree.nodeCount)
    (left right : Nat) : Touched nid (fun node => { node with
      left := .ofNat left
      right := .ofNat right }) tree (tree.link nid left right) :=
  h.touched hnid (fun _ hnode => node?_link_self hnode left right)
    fun _ hne _ hnode => node?_link_other hne hnode left right

section Growth

variable [Numeric T] [Numeric L]

/-- Where there is room for both children, they stand behind all nodes, and nothing else is
appended. -/
theorem addChildren_eq_ok
    (hok : (addChildren nid : Edit (Tree T L) Unit).apply tree = (.ok (), after)) :
    tree.numNodes < Int32.maxValue ∧ tree.pushNode.numNodes < Int32.maxValue ∧
      after = tree.pushNode.pushNode.link nid tree.nodeCount tree.pushNode.nodeCount := by
  rw [addChildren, Edit.apply_bind_eq_ok] at hok
  obtain ⟨_, start, hcheck, hok⟩ := hok
  have hleads : (checkNode nid : Edit (Tree T L) Unit).Leads tree fun _ middle => middle = tree :=
    .get_bind (.require fun _ => rfl)
  obtain rfl := hleads.goal_of_ok hcheck
  obtain ⟨left, one, hleft, hok⟩ := Edit.apply_bind_eq_ok.mp hok
  obtain ⟨-, hlt, rfl, rfl⟩ := (allocNode_leads start).goal_of_ok hleft
  obtain ⟨right, two, hright, hok⟩ := Edit.apply_bind_eq_ok.mp hok
  obtain ⟨-, hlt', rfl, rfl⟩ := (allocNode_leads start.pushNode).goal_of_ok hright
  cases hok
  exact ⟨hlt, hlt', rfl⟩

private theorem WellKept.touched_addChildren (h : tree.WellKept) (hb : after.Bounded)
    (hok : (addChildren nid : Edit (Tree T L) Unit).apply tree = (.ok (), after)) :
    Touched nid ((Change.addChildren nid).outcome tree.nodeCount) tree after := by
  have hnid : nid < tree.nodeCount := lt_of_checkNode_bind hok
  obtain ⟨hlt, hlt', rfl⟩ := addChildren_eq_ok hok
  obtain ⟨-, hcount⟩ := nodeCount_pushNode h.numNodes_nonneg hlt
  obtain ⟨hold, -⟩ := node?_pushNode h.columnar
  obtain ⟨hold', -⟩ := node?_pushNode (h.pushNode ⟨hb.1, hb.2⟩ hlt).columnar
  rw [hcount]
  exact h.touched hnid
    (fun node hnode => node?_link_self (hold' nid node (hold nid node hnode)) _ _)
    fun m hne node hnode => node?_link_other hne (hold' m node (hold m node hnode)) _ _

theorem lt_of_perform {change : Change T L} (htarget : change.target? = some nid)
    (hok : change.perform.apply tree = (.ok (), after)) : nid < tree.nodeCount := by
  cases change with
  | reset => cases htarget
  | allocNode => cases htarget
  | _ =>
    cases htarget
    exact lt_of_checkNode_bind hok

/-- A call that goes through changes the node that it is about, and no other. -/
theorem Kept.touched (h : tree.Kept) {change : Change T L} (htarget : change.target? = some nid)
    (hok : change.perform.apply tree = (.ok (), after)) (hb : after.Bounded) :
    Touched nid (change.outcome tree.nodeCount) tree after := by
  have hnid := lt_of_perform htarget hok
  cases change with
  | reset => cases htarget
  | allocNode => cases htarget
  | addChildren =>
    cases htarget
    obtain ⟨-, -, rfl⟩ := addChildren_eq_ok hok
    exact (h ⟨hb.1, hb.2⟩).touched_addChildren hb hok
  | setChildren _ left right =>
    cases htarget
    obtain ⟨-, -, -, rfl⟩ := (setChildren_leads tree nid left right).goal_of_ok hok
    exact (h ⟨hb.1, hb.2⟩).touched_link hnid left right
  | setNumericalSplit _ feature threshold defaultLeft comparison =>
    cases htarget
    exact ((setNumericalSplit_edited feature threshold defaultLeft comparison).goal_of_ok
      hok).touched h hb hnid
  | setCategoricalSplit _ feature defaultLeft categories matchGoesRight =>
    cases htarget
    exact ((setCategoricalSplit_edited feature defaultLeft categories matchGoesRight).goal_of_ok
      hok).touched h hb hnid
  | setLeaf _ value =>
    cases htarget
    exact ((setLeaf_edited value).goal_of_ok hok).touched h hb hnid
  | setLeafVector _ values =>
    cases htarget
    exact ((setLeafVector_edited values).goal_of_ok hok).touched h hb hnid
  | setDataCount _ count =>
    cases htarget
    exact ((setDataCount_edited count).goal_of_ok hok).touched h hb hnid
  | setSumHess _ sum =>
    cases htarget
    exact ((setSumHess_edited sum).goal_of_ok hok).touched h hb hnid
  | setGain _ gain =>
    cases htarget
    exact ((setGain_edited gain).goal_of_ok hok).touched h hb hnid

/-- Whatever calls have changed a tree since it was empty, one more that goes through leaves every
node alone that it is not about. Its own node shows the categories in ascending order, each as often
as it was given, or the leaf vector as it was given, or the leaf value and no vector any more. -/
theorem perform_touches_only_target (changes : List (Change T L)) (change : Change T L)
    (htarget : change.target? = some nid)
    (hok : change.perform.apply ((empty : Tree T L).run changes) = (.ok (), after))
    (hb : after.Bounded) :
    (∀ m < ((empty : Tree T L).run changes).nodeCount, m ≠ nid →
      ∃ node, ((empty : Tree T L).run changes).node? m = some node ∧ after.node? m = some node) ∧
    ∃ old new, ((empty : Tree T L).run changes).node? nid = some old ∧
      after.node? nid = some new ∧
      new = change.outcome ((empty : Tree T L).run changes).nodeCount old ∧
      (∀ feature defaultLeft categories matchGoesRight,
        change = .setCategoricalSplit nid feature defaultLeft categories matchGoesRight →
          new.categories.toList.Perm categories ∧ new.categories.toList.Pairwise (· ≤ ·)) ∧
      (∀ values, change = .setLeafVector nid values → new.leafVector = values) ∧
      ∀ value, change = .setLeaf nid value → new.leafValue = value ∧ new.leafVector = #[] := by
  have hstart : (empty : Tree T L).Kept := fun _ => wellKept_empty
  obtain ⟨⟨old, hold, hnew⟩, hother⟩ := (hstart.run changes).touched htarget hok hb
  refine ⟨hother, old, _, hold, hnew, rfl, ?_, ?_, ?_⟩
  · rintro feature defaultLeft categories matchGoesRight rfl
    exact ⟨List.mergeSort_perm categories _, ascending_mergeSort categories⟩
  · rintro values rfl
    rfl
  · rintro value rfl
    exact ⟨rfl, rfl⟩

end Growth

/-- Node 1 is given categories, is made a leaf with a vector, and is given categories again, while
node 2 gets an empty list, which the third list has to move. -/
def overwrites : List (Change Double Double) :=
  [.allocNode, .addChildren 0, .setCategoricalSplit 1 0 false [7] false,
    .setCategoricalSplit 2 1 true [] true, .setLeafVector 2 #[Score.one, Numeric.zero],
    .setLeafVector 1 #[Score.one], .setSumHess 2 Score.one]

/-- Node 1 is given categories once more. Its second list gets a new place in the store, and the
empty list of node 2 moves behind it. -/
theorem perform_touches_only_target_overwrites :
    ∃ after, (Change.setCategoricalSplit 1 3 true [5, 2, 5] true).perform.apply
        ((empty : Tree Double Double).run overwrites) = (.ok (), after) ∧ after.Bounded ∧
      (∃ node, ((empty : Tree Double Double).run overwrites).node? 2 = some node ∧
        after.node? 2 = some node) ∧
      ∃ node, after.node? 1 = some node ∧ node.leafVector = #[Score.one] ∧
        node.categories.toList.Perm [5, 2, 5] ∧ node.categories.toList.Pairwise (· ≤ ·) := by
  have hend : ((Change.setCategoricalSplit 1 3 true [5, 2, 5] true).perform.apply
      ((empty : Tree Double Double).run overwrites)).1 = .ok () := by decide +kernel
  obtain ⟨_, after, hok⟩ := Edit.Succeeds.of_fst hend
  have hgrown := (setCategoricalSplit_grown 3 true [5, 2, 5] true).goal_of_ok hok
  have hleaves : ((empty : Tree Double Double).run overwrites).leafStore.size = 3 := by
    decide +kernel
  have hcategories : ((empty : Tree Double Double).run overwrites).categoryStore.size = 1 := by
    decide +kernel
  have hb : after.Bounded := by
    constructor
    · rw [hgrown.leafStore, hleaves]
      decide
    · rw [hgrown.categoryStore, hcategories]
      decide
  obtain ⟨hother, old, new, hold, hnew, rfl, hlist, -⟩ :=
    perform_touches_only_target overwrites _ rfl hok hb
  have hvector : (((empty : Tree Double Double).run overwrites).node? 1).map Node.leafVector =
      some #[Score.one] := by decide +kernel
  rw [hold, Option.map_some, Option.some.injEq] at hvector
  exact ⟨after, hok, hb, hother 2 (by decide +kernel) (by decide), _, hnew, hvector,
    hlist 3 true [5, 2, 5] true rfl⟩

end Tree

end Arboretum

import Arboretum.Proofs.Tree.Failures

/-!
What a node still shows of what it used to be. Of the calls that give a node its kind, not all give
it categories or a leaf vector too, and where a call gives none the old ones stay. So what a node
shows can be read off the calls about it: its kind, its categories and its vector are each the last
that it was given.
-/

namespace Arboretum

deriving instance DecidableEq for Change

variable {T L : Type}

namespace Change

/-- Whether a call is about a node. Starting over is about all of them. -/
def concerns (nid : Nat) : Change T L → Bool
  | reset => true
  | change => change.target? = some nid

/-- The kind that a call gives to the nodes that it is about. -/
def newKind? : Change T L → Option NodeKind
  | reset => some .leaf
  | setNumericalSplit .. => some .numericalTest
  | setCategoricalSplit .. => some .categoricalTest
  | setLeaf .. => some .leaf
  | setLeafVector .. => some .leaf
  | _ => none

def newCategories? : Change T L → Option (Array UInt32)
  | reset => some #[]
  | setCategoricalSplit _ _ _ categories _ => some (categories.mergeSort (· ≤ ·)).toArray
  | _ => none

def newVector? : Change T L → Option (Array L)
  | reset => some #[]
  | setLeaf .. => some #[]
  | setLeafVector _ values => some values
  | _ => none

section Categories

variable {change : Change T L}

private theorem newKind?_of_newCategories? {categories : Array UInt32}
    (h : change.newCategories? = some categories) (hne : categories ≠ #[]) :
    change.newKind? = some .categoricalTest := by
  cases change with
  | reset => exact absurd (Option.some.inj h).symm hne
  | setCategoricalSplit => rfl
  | _ => cases h

private theorem newKind?_of_newVector? {values : Array L} (h : change.newVector? = some values) :
    change.newKind? = some .leaf := by
  cases change with
  | reset => rfl
  | setLeaf => rfl
  | setLeafVector => rfl
  | _ => cases h

private theorem exists_newCategories? (h : change.newKind? = some .categoricalTest) :
    ∃ categories, change.newCategories? = some categories := by
  cases change with
  | setCategoricalSplit => exact ⟨_, rfl⟩
  | _ => cases h

private theorem exists_newVector? (h : change.newKind? = some .leaf) :
    ∃ values, change.newVector? = some values := by
  cases change with
  | reset => exact ⟨_, rfl⟩
  | setLeaf => exact ⟨_, rfl⟩
  | setLeafVector => exact ⟨_, rfl⟩
  | _ => cases h

end Categories

/-- What a call makes of a node that it is about, starting over included. -/
def remake [Numeric T] [Numeric L] (count : Nat) : Change T L → Node T L → Node T L
  | reset, _ => Node.fresh
  | change, node => change.outcome count node

section Remake

variable [Numeric T] [Numeric L] (count : Nat) (change : Change T L) (node : Node T L)

private theorem kind_remake : (change.remake count node).kind = change.newKind?.getD node.kind := by
  cases change <;> rfl

private theorem categories_remake :
    (change.remake count node).categories = change.newCategories?.getD node.categories := by
  cases change <;> rfl

private theorem leafVector_remake :
    (change.remake count node).leafVector = change.newVector?.getD node.leafVector := by
  cases change <;> rfl

end Remake

end Change

section LastGiven

variable {α : Type} {give : Change T L → Option α} {calls : List (Change T L)} {a : α}

/-- What is given by the last of the calls that give something. -/
def lastGiven (give : Change T L → Option α) (calls : List (Change T L)) : Option α :=
  calls.reverse.findSome? give

theorem lastGiven_append (give : Change T L → Option α) (calls later : List (Change T L)) :
    lastGiven give (calls ++ later) = (lastGiven give later).or (lastGiven give calls) := by
  rw [lastGiven, List.reverse_append, List.findSome?_append, lastGiven, lastGiven]

private theorem lastGiven_eq_none_iff :
    lastGiven give calls = none ↔ ∀ c ∈ calls, give c = none := by
  simp [lastGiven]

private theorem lastGiven_eq_some_iff : lastGiven give calls = some a ↔ ∃ earlier call later,
    calls = earlier ++ call :: later ∧ give call = some a ∧ ∀ c ∈ later, give c = none := by
  rw [lastGiven, List.findSome?_eq_some_iff]
  constructor
  · rintro ⟨later, call, earlier, hsplit, hgive, hnone⟩
    refine ⟨earlier.reverse, call, later.reverse, ?_, hgive, fun c hc => ?_⟩
    · rw [← List.reverse_reverse calls, hsplit]
      simp
    · exact hnone c (List.mem_reverse.mp hc)
  · rintro ⟨earlier, call, later, rfl, hgive, hnone⟩
    refine ⟨later.reverse, call, earlier.reverse, by simp, hgive, fun c hc => ?_⟩
    exact hnone c (List.mem_reverse.mp hc)

private theorem getD_lastGiven_concat {call : Change T L} {old default : α}
    (h : old = (lastGiven give calls).getD default) :
    (give call).getD old = (lastGiven give (calls ++ [call])).getD default := by
  rw [h, lastGiven_append]
  cases hgive : give call <;> simp [lastGiven, hgive]

/-- A list that was given and is not empty, that no later call has replaced, and that is not of the
kind that a later call has given. -/
def Outlived (give : Change T L → Option (Array α)) (calls : List (Change T L)) : Prop :=
  ∃ earlier call later list, calls = earlier ++ call :: later ∧ give call = some list ∧
    list ≠ #[] ∧ (∀ c ∈ later, give c = none) ∧ ∃ c ∈ later, c.newKind? ≠ none

/-- The last list is not of the last kind exactly when it has been outlived by its kind. -/
theorem outlived_iff {give : Change T L → Option (Array α)} {kind : NodeKind}
    (hkind : ∀ call list, give call = some list → list ≠ #[] → call.newKind? = some kind)
    (hgive : ∀ call : Change T L, call.newKind? = some kind → ∃ list, give call = some list) :
    ((lastGiven Change.newKind? calls).getD .leaf ≠ kind ∧
      (lastGiven give calls).getD #[] ≠ #[]) ↔ Outlived give calls := by
  constructor
  · rintro ⟨hother, hlist⟩
    cases hlast : lastGiven give calls with
    | none =>
      rw [hlast] at hlist
      exact absurd rfl hlist
    | some list =>
      rw [hlast, Option.getD_some] at hlist
      obtain ⟨earlier, call, later, rfl, hcall, hnone⟩ := lastGiven_eq_some_iff.mp hlast
      refine ⟨earlier, call, later, list, rfl, hcall, hlist, hnone, ?_⟩
      by_contra hkept
      have hlater : ∀ c ∈ later, c.newKind? = none :=
        fun c hc => not_not.mp fun hne => hkept ⟨c, hc, hne⟩
      have hsame : lastGiven Change.newKind? (earlier ++ call :: later) = some kind :=
        lastGiven_eq_some_iff.mpr ⟨earlier, call, later, rfl, hkind call list hcall hlist, hlater⟩
      rw [hsame] at hother
      exact hother rfl
  · rintro ⟨earlier, call, later, list, rfl, hcall, hlist, hnone, c, hc, hc'⟩
    have hlast : lastGiven give (earlier ++ call :: later) = some list :=
      lastGiven_eq_some_iff.mpr ⟨earlier, call, later, rfl, hcall, hnone⟩
    rw [hlast, Option.getD_some, List.append_cons, lastGiven_append]
    cases hlater : lastGiven Change.newKind? later with
    | none => exact absurd (lastGiven_eq_none_iff.mp hlater c hc) hc'
    | some other =>
      refine ⟨?_, hlist⟩
      rintro rfl
      -- The call that gave the kind would have given a list with it.
      obtain ⟨before, d, after, rfl, hd, -⟩ := lastGiven_eq_some_iff.mp hlater
      obtain ⟨replaced, hreplaced⟩ := hgive d hd
      rw [hnone d (List.mem_append_right _ (List.mem_cons_self ..))] at hreplaced
      cases hreplaced

end LastGiven

namespace Tree

variable [Numeric T] [Numeric L] {tree after : Tree T L} {nid : Nat}

/-- A node of the tree, or what it will be like when it is appended. -/
def nodeOrFresh (tree : Tree T L) (nid : Nat) : Node T L := (tree.node? nid).getD Node.fresh

private theorem nodeOrFresh_of_node? {node : Node T L} (h : tree.node? nid = some node) :
    tree.nodeOrFresh nid = node := by
  rw [nodeOrFresh, h, Option.getD_some]

private theorem Columnar.nodeOrFresh_of_le (h : tree.Columnar) (hle : tree.nodeCount ≤ nid) :
    tree.nodeOrFresh nid = Node.fresh := by
  cases hnode : tree.node? nid with
  | none => rw [nodeOrFresh, hnode, Option.getD_none]
  | some node => exact absurd (h.lt hnode) (Nat.not_lt.mpr hle)

theorem WellKept.nodeOrFresh_pushNode (h : tree.WellKept) (hb : tree.pushNode.Bounded)
    (hlt : tree.numNodes < Int32.maxValue) (nid : Nat) :
    tree.pushNode.nodeOrFresh nid = tree.nodeOrFresh nid := by
  obtain ⟨-, hcount⟩ := nodeCount_pushNode h.numNodes_nonneg hlt
  obtain ⟨hold, hnew⟩ := node?_pushNode h.columnar
  rcases Nat.lt_trichotomy nid tree.nodeCount with hnid | rfl | hnid
  · obtain ⟨node, hnode, -⟩ := h.nodes nid hnid
    rw [nodeOrFresh_of_node? hnode, nodeOrFresh_of_node? (hold nid node hnode)]
  · rw [nodeOrFresh_of_node? hnew, h.columnar.nodeOrFresh_of_le (Nat.le_refl _)]
  · rw [h.columnar.nodeOrFresh_of_le (Nat.le_of_lt hnid),
      (h.pushNode hb hlt).columnar.nodeOrFresh_of_le (by omega)]

private theorem nodeOrFresh_link_other {m : Nat} (hne : m ≠ nid) (left right : Nat) :
    (tree.link nid left right).nodeOrFresh m = tree.nodeOrFresh m := by
  simp only [nodeOrFresh, node?, link, Array.getElem?_setIfInBounds_ne (Ne.symm hne)]

omit [Numeric T] [Numeric L] in
private theorem edited_link (tree : Tree T L) (nid left right : Nat) :
    Edited nid (fun node => { node with left := .ofNat left, right := .ofNat right }) false tree
      (tree.link nid left right) where
  numNodes := rfl
  categorical := (Bool.or_false _).symm
  columnar := columnar_linkAll [(nid, left, right)]
  bounded := fun hb => ⟨hb.1, hb.2⟩
  self := fun _ _ _ h => node?_link_self h left right
  other := fun _ _ _ hne _ h => node?_link_other hne h left right

/-- Apart from the call for two children, a call about a node edits it and nothing else. -/
theorem edited_of_perform {change : Change T L} (htarget : change.target? = some nid)
    (hother : ∀ m, change ≠ .addChildren m)
    (hok : change.perform.apply tree = (.ok (), after)) :
    ∃ edit categorical, Edited nid edit categorical tree after := by
  cases change with
  | reset => cases htarget
  | allocNode => cases htarget
  | addChildren m => exact absurd rfl (hother m)
  | setChildren _ left right =>
    cases htarget
    obtain ⟨-, -, -, rfl⟩ := (setChildren_leads tree nid left right).goal_of_ok hok
    exact ⟨_, _, edited_link tree nid left right⟩
  | setNumericalSplit _ feature threshold defaultLeft comparison =>
    cases htarget
    exact ⟨_, _, (setNumericalSplit_edited feature threshold defaultLeft comparison).goal_of_ok hok⟩
  | setCategoricalSplit _ feature defaultLeft categories matchGoesRight =>
    cases htarget
    exact ⟨_, _, (setCategoricalSplit_edited feature defaultLeft categories
      matchGoesRight).goal_of_ok hok⟩
  | setLeaf _ value =>
    cases htarget
    exact ⟨_, _, (setLeaf_edited value).goal_of_ok hok⟩
  | setLeafVector _ values =>
    cases htarget
    exact ⟨_, _, (setLeafVector_edited values).goal_of_ok hok⟩
  | setDataCount _ count =>
    cases htarget
    exact ⟨_, _, (setDataCount_edited count).goal_of_ok hok⟩
  | setSumHess _ sum =>
    cases htarget
    exact ⟨_, _, (setSumHess_edited sum).goal_of_ok hok⟩
  | setGain _ gain =>
    cases htarget
    exact ⟨_, _, (setGain_edited gain).goal_of_ok hok⟩

private theorem bounded_of_perform {change : Change T L} (htarget : change.target? = some nid)
    (hok : change.perform.apply tree = (.ok (), after)) (hb : after.Bounded) : tree.Bounded := by
  rcases exists_addChildren_or change with ⟨m, rfl⟩ | hother
  · obtain ⟨-, -, rfl⟩ := addChildren_eq_ok hok
    exact ⟨hb.1, hb.2⟩
  · obtain ⟨_, _, hedited⟩ := edited_of_perform htarget hother hok
    exact hedited.bounded hb

private theorem WellKept.fresh_behind (h : tree.WellKept) {change : Change T L} {target : Nat}
    (htarget : change.target? = some target)
    (hok : change.perform.apply tree = (.ok (), after)) (hb : after.Bounded)
    (hle : tree.nodeCount ≤ nid) : after.nodeOrFresh nid = Node.fresh := by
  rcases exists_addChildren_or change with ⟨m, rfl⟩ | hother
  · have hlt := lt_of_perform htarget hok
    cases htarget
    obtain ⟨hone, htwo, rfl⟩ := addChildren_eq_ok hok
    rw [nodeOrFresh_link_other (by omega),
      (h.pushNode ⟨hb.1, hb.2⟩ hone).nodeOrFresh_pushNode ⟨hb.1, hb.2⟩ htwo,
      h.nodeOrFresh_pushNode ⟨hb.1, hb.2⟩ hone, h.columnar.nodeOrFresh_of_le hle]
  · obtain ⟨_, _, hedited⟩ := edited_of_perform htarget hother hok
    refine (hedited.columnar h.columnar).nodeOrFresh_of_le ?_
    rw [hedited.nodeCount_eq]
    exact hle

private theorem Kept.nodeOrFresh_of_target (h : tree.Kept) {change : Change T L} {target : Nat}
    (htarget : change.target? = some target)
    (hok : change.perform.apply tree = (.ok (), after)) (hb : after.Bounded) (nid : Nat) :
    after.nodeOrFresh nid = if target = nid then
      change.outcome tree.nodeCount (tree.nodeOrFresh nid) else tree.nodeOrFresh nid := by
  have hwell := h (bounded_of_perform htarget hok hb)
  obtain ⟨⟨old, hold, hnew⟩, hother⟩ := h.touched htarget hok hb
  by_cases hself : target = nid
  · subst hself
    rw [if_pos rfl, nodeOrFresh_of_node? hold, nodeOrFresh_of_node? hnew]
  · rw [if_neg hself]
    by_cases hnid : nid < tree.nodeCount
    · obtain ⟨node, hnode, hsame⟩ := hother nid hnid (Ne.symm hself)
      rw [nodeOrFresh_of_node? hnode, nodeOrFresh_of_node? hsame]
    · have hle := Nat.not_lt.mp hnid
      rw [hwell.fresh_behind htarget hok hb hle, hwell.columnar.nodeOrFresh_of_le hle]

private theorem nodeOrFresh_singleLeaf (nid : Nat) :
    (singleLeaf : Tree T L).nodeOrFresh nid = Node.fresh := by
  have hroom : (0 : Int32) < Int32.maxValue := by decide
  have hb : (empty : Tree T L).pushNode.Bounded := by
    constructor <;> exact Nat.two_pow_pos 64
  have hempty : (empty : Tree T L).WellKept := wellKept_empty
  rw [singleLeaf, hempty.nodeOrFresh_pushNode hb hroom]
  exact hempty.columnar.nodeOrFresh_of_le (Nat.zero_le nid)

theorem Kept.nodeOrFresh_perform (h : tree.Kept) {change : Change T L}
    (hok : change.perform.apply tree = (.ok (), after)) (hb : after.Bounded) (nid : Nat) :
    after.nodeOrFresh nid = if change.concerns nid then
      change.remake tree.nodeCount (tree.nodeOrFresh nid) else tree.nodeOrFresh nid := by
  cases change with
  | reset =>
    cases hok
    exact nodeOrFresh_singleLeaf nid
  | allocNode =>
    obtain ⟨_, middle, halloc, hdone⟩ := Edit.apply_bind_eq_ok.mp hok
    cases hdone
    obtain ⟨-, hlt, -, rfl⟩ := (allocNode_leads tree).goal_of_ok halloc
    exact (h ⟨hb.1, hb.2⟩).nodeOrFresh_pushNode hb hlt nid
  | _ =>
    rw [h.nodeOrFresh_of_target rfl hok hb]
    simp only [Change.concerns, Change.target?, Option.some.injEq, decide_eq_true_eq]
    rfl

/-- A node that shows the last of each that some calls have given it. -/
structure Recalls (calls : List (Change T L)) (node : Node T L) : Prop where
  kind : node.kind = (lastGiven Change.newKind? calls).getD .leaf
  categories : node.categories = (lastGiven Change.newCategories? calls).getD #[]
  leafVector : node.leafVector = (lastGiven Change.newVector? calls).getD #[]

private theorem recalls_nil : Recalls [] (Node.fresh : Node T L) := ⟨rfl, rfl, rfl⟩

private theorem recalls_reset (calls : List (Change T L)) :
    Recalls (calls ++ [.reset]) (Node.fresh : Node T L) := by
  constructor <;> rw [lastGiven_append] <;> rfl

/-- What a call makes of a node is what is recalled with the call behind all others. -/
theorem Recalls.remake {calls : List (Change T L)} {node : Node T L} (h : Recalls calls node)
    (count : Nat) (change : Change T L) :
    Recalls (calls ++ [change]) (change.remake count node) where
  kind := (change.kind_remake count node).trans (getD_lastGiven_concat h.kind)
  categories := (change.categories_remake count node).trans (getD_lastGiven_concat h.categories)
  leafVector := (change.leafVector_remake count node).trans (getD_lastGiven_concat h.leafVector)

/-- Every node, and every one that is still to come, shows the last of each that the calls about it
have given. -/
def Recalled (calls : List (Change T L)) (tree : Tree T L) : Prop :=
  tree.Bounded → ∀ nid, Recalls (calls.filter (Change.concerns nid)) (tree.nodeOrFresh nid)

/-- Where a call has gone through, it is the last one about the nodes that it is about. -/
theorem Recalled.perform {calls : List (Change T L)} {change : Change T L}
    (h : Recalled calls tree) (hkept : tree.Kept)
    (hok : change.perform.apply tree = (.ok (), after)) : Recalled (calls ++ [change]) after := by
  have hstep (hbefore : tree.Bounded) (hb : after.Bounded) (nid : Nat) :
      Recalls ((calls ++ [change]).filter (Change.concerns nid)) (after.nodeOrFresh nid) := by
    rw [hkept.nodeOrFresh_perform hok hb nid, List.filter_append]
    by_cases habout : change.concerns nid
    · rw [if_pos habout, List.filter_cons_of_pos habout, List.filter_nil]
      exact (h hbefore nid).remake tree.nodeCount change
    · rw [if_neg habout, List.filter_cons_of_neg habout, List.filter_nil, List.append_nil]
      exact h hbefore nid
  intro hb nid
  cases change with
  | reset =>
    -- The stores start over too, so that nothing has to be known about the tree of before.
    cases hok
    rw [List.filter_append, nodeOrFresh_singleLeaf]
    exact recalls_reset _
  | allocNode =>
    obtain ⟨_, middle, halloc, hdone⟩ := Edit.apply_bind_eq_ok.mp hok
    cases hdone
    obtain ⟨-, -, -, rfl⟩ := (allocNode_leads tree).goal_of_ok halloc
    exact hstep ⟨hb.1, hb.2⟩ hb nid
  | _ => exact hstep (bounded_of_perform rfl hok hb) hb nid

private theorem Recalled.of_error {calls : List (Change T L)} {change : Change T L} {e : Error}
    (h : Recalled calls tree) (hkept : tree.Kept) (hsized : tree.Sized)
    (herror : change.perform.apply tree = (.error e, after)) : Recalled calls after := by
  rcases exists_addChildren_or change with ⟨nid, rfl⟩ | hother
  · rcases hsized.addChildren_outcome nid with ⟨hleads, -⟩ | ⟨⟨-, hlast⟩, hshort⟩
    · rw [hleads.eq_of_error herror]
      exact h
    · cases hshort.symm.trans herror
      intro hb m
      have hbefore : tree.Bounded := ⟨hb.1, hb.2⟩
      have hlt : tree.numNodes < Int32.maxValue := by
        rw [hlast]
        decide
      rw [(hkept hbefore).nodeOrFresh_pushNode hb hlt]
      exact h hbefore m
  · rw [(perform_leads hother tree).eq_of_error herror]
    exact h

def accepted (tree : Tree T L) : List (Change T L) → List (Change T L)
  | [] => []
  | change :: changes =>
    match change.perform.apply tree with
    | (.ok _, after) => change :: after.accepted changes
    | (.error _, after) => after.accepted changes

theorem Recalled.run {calls : List (Change T L)} (h : Recalled calls tree) (hkept : tree.Kept)
    (hsized : tree.Sized) (changes : List (Change T L)) :
    Recalled (calls ++ tree.accepted changes) (tree.run changes) := by
  induction changes generalizing calls tree with
  | nil =>
    rw [accepted, List.append_nil]
    exact h
  | cons change changes ih =>
    have hkept' := hkept.perform change
    have hsized' := hsized.perform change
    have hrun : tree.run (change :: changes) = (change.perform.apply tree).2.run changes := rfl
    rw [hrun, accepted]
    generalize hcall : change.perform.apply tree = result at hkept' hsized' ⊢
    obtain ⟨e | _, after⟩ := result
    · exact ih (h.of_error hkept hsized hcall) hkept' hsized'
    · rw [List.append_cons]
      exact ih (h.perform hkept hcall) hkept' hsized'

/-- The calls about a node among those that go through when a tree is built up by some. -/
def history (changes : List (Change T L)) (nid : Nat) : List (Change T L) :=
  ((empty : Tree T L).accepted changes).filter (Change.concerns nid)

/-- A node that is no membership test still shows categories exactly when the last list that it was
given has been outlived by its kind, and in the same way a node that is no leaf a leaf vector. -/
theorem shows_outlived_lists_iff (changes : List (Change T L)) {nid : Nat}
    (hnid : nid < ((empty : Tree T L).run changes).nodeCount)
    (hb : ((empty : Tree T L).run changes).Bounded) :
    ∃ node, ((empty : Tree T L).run changes).node? nid = some node ∧
      (node.kind ≠ .categoricalTest ∧ node.categories ≠ #[] ↔
        Outlived Change.newCategories? (history changes nid)) ∧
      (node.kind ≠ .leaf ∧ node.leafVector ≠ #[] ↔
        Outlived Change.newVector? (history changes nid)) := by
  have hstart : (empty : Tree T L).Kept := fun _ => wellKept_empty
  have hempty : Recalled [] (empty : Tree T L) := by
    intro _ m
    rw [sized_empty.columnar.nodeOrFresh_of_le (Nat.zero_le m)]
    exact recalls_nil
  have hrecalled := hempty.run hstart sized_empty changes hb nid
  obtain ⟨node, hnode, -⟩ := (hstart.run changes hb).nodes nid hnid
  rw [nodeOrFresh_of_node? hnode, List.nil_append] at hrecalled
  refine ⟨node, hnode, ?_, ?_⟩
  · rw [hrecalled.kind, hrecalled.categories]
    exact outlived_iff (fun _ _ => Change.newKind?_of_newCategories?)
      fun _ => Change.exists_newCategories?
  · rw [hrecalled.kind, hrecalled.leafVector]
    exact outlived_iff (fun _ _ hvector _ => Change.newKind?_of_newVector? hvector)
      fun _ => Change.exists_newVector?

/-- The root gets categories and is made a numerical test, while one of its children gets a vector
and is made a test. -/
def remade : List (Change Double Double) :=
  [.allocNode, .setCategoricalSplit 0 0 false [1] false, .addChildren 0,
    .setNumericalSplit 0 0 Numeric.zero true .less, .setLeafVector 1 #[Score.one],
    .setCategoricalSplit 1 0 false [2] false]

/-- The vector of node 1 was given before the last call about it, which gives none. -/
theorem shows_outlived_lists_iff_remade :
    1 < ((empty : Tree Double Double).run remade).nodeCount ∧
      ((empty : Tree Double Double).run remade).Bounded ∧
      ∃ node, ((empty : Tree Double Double).run remade).node? 1 = some node ∧
        node.kind ≠ .leaf ∧ node.leafVector ≠ #[] := by
  have hnid : 1 < ((empty : Tree Double Double).run remade).nodeCount := by decide +kernel
  have hb : ((empty : Tree Double Double).run remade).Bounded := by decide +kernel
  obtain ⟨node, hnode, -, hvector⟩ := shows_outlived_lists_iff remade hnid hb
  refine ⟨hnid, hb, node, hnode, hvector.mpr ⟨[], .setLeafVector 1 #[Score.one],
    [.setCategoricalSplit 1 0 false [2] false], #[Score.one], ?_, rfl, by decide, ?_, ?_⟩⟩
  · decide +kernel
  · intro c hc
    cases List.mem_singleton.mp hc
    rfl
  · exact ⟨_, List.mem_singleton_self _, by decide⟩

/-- The root is a numerical test and still shows the categories that it was given before. -/
theorem numerical_test_shows_categories :
    ∃ node, ((empty : Tree Double Double).run remade).node? 0 = some node ∧
      node.kind = .numericalTest ∧ node.categories = #[1] := by
  have hroot : (((empty : Tree Double Double).run remade).node? 0).map
      (fun node => (node.kind, node.categories)) = some (.numericalTest, #[1]) := by decide +kernel
  obtain ⟨node, hnode, hshown⟩ := Option.map_eq_some_iff.mp hroot
  exact ⟨node, hnode, congrArg Prod.fst hshown, congrArg Prod.snd hshown⟩

end Tree

end Arboretum

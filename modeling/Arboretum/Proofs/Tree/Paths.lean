import Arboretum.Proofs.Tree.Marking
import Arboretum.Proofs.Tree.Renumbering

/-!
Paths through a tree, as sequences of steps to the left or to the right. The check of a tree walks
with a stack and marks what it meets; here it is shown to decide that every node is at the end of
exactly one path from the root, whatever graph the columns describe.
-/

namespace Arboretum

/-- A step from a node to one of its children. -/
inductive Side where
  | left
  | right
  deriving DecidableEq, Repr

namespace Tree

variable {T L : Type}

/-- The child of a node on a side; nothing where the node has none there. -/
def child? (tree : Tree T L) (nid : Nat) (side : Side) : Option Nat := do
  let child ← match side with
    | .left => tree.left[nid]?
    | .right => tree.right[nid]?
  if child < 0 then none else some child.toInt.toNat

/-- The node at the end of a path; nothing if a step on it has no child to go to. -/
def follow? (tree : Tree T L) : List Side → Nat → Option Nat
  | [], nid => some nid
  | side :: path, nid => (tree.child? nid side).bind (tree.follow? path)

def below (tree : Tree T L) (nid : Nat) : List Nat :=
  [Side.left, Side.right].filterMap (tree.child? nid)

/-- Some path leads from one node to another. -/
def Reaches (tree : Tree T L) (nid goal : Nat) : Prop := ∃ path, tree.follow? path nid = some goal

variable {tree : Tree T L} {nid goal : Nat} {stack : List Nat} {visited : Array Bool}

theorem Reaches.refl (tree : Tree T L) (nid : Nat) : tree.Reaches nid nid := ⟨[], rfl⟩

theorem mem_below {child : Nat} :
    child ∈ tree.below nid ↔ ∃ side, tree.child? nid side = some child := by
  rw [below, List.mem_filterMap]
  constructor
  · rintro ⟨side, -, h⟩
    exact ⟨side, h⟩
  · rintro ⟨side, h⟩
    exact ⟨side, by cases side <;> simp, h⟩

theorem Reaches.of_child {child : Nat} (hchild : child ∈ tree.below nid)
    (h : tree.Reaches child goal) : tree.Reaches nid goal := by
  obtain ⟨side, hside⟩ := mem_below.mp hchild
  obtain ⟨path, hpath⟩ := h
  exact ⟨side :: path, by rw [follow?, hside, Option.bind_some, hpath]⟩

theorem follow?_cons_eq_some {side : Side} {path : List Side} :
    tree.follow? (side :: path) nid = some goal ↔
      ∃ child, tree.child? nid side = some child ∧ tree.follow? path child = some goal := by
  rw [follow?, Option.bind_eq_some_iff]

theorem follow?_append (first second : List Side) (nid : Nat) :
    tree.follow? (first ++ second) nid = (tree.follow? first nid).bind (tree.follow? second) := by
  induction first generalizing nid with
  | nil => rfl
  | cons side first ih =>
    rw [List.cons_append, follow?, follow?, Option.bind_assoc]
    exact congrArg (Option.bind _) (funext ih)

theorem follow?_concat_eq_some {side : Side} {path : List Side} :
    tree.follow? (path ++ [side]) nid = some goal ↔
      ∃ parent, tree.follow? path nid = some parent ∧ tree.child? parent side = some goal := by
  rw [follow?_append, Option.bind_eq_some_iff]
  simp [follow?]

theorem reaches_iff :
    tree.Reaches nid goal ↔ goal = nid ∨ ∃ child ∈ tree.below nid, tree.Reaches child goal := by
  constructor
  · rintro ⟨_ | ⟨side, path⟩, h⟩
    · cases h
      exact .inl rfl
    · obtain ⟨child, hchild, h⟩ := follow?_cons_eq_some.mp h
      exact .inr ⟨child, mem_below.mpr ⟨side, hchild⟩, path, h⟩
  · rintro (rfl | ⟨child, hchild, h⟩)
    · exact .refl tree goal
    · exact h.of_child hchild

private theorem exists_reaches_cons : (∃ start ∈ nid :: stack, tree.Reaches start goal) ↔
    goal = nid ∨ ∃ start ∈ tree.below nid ++ stack, tree.Reaches start goal := by
  simp only [List.mem_append, or_and_right, exists_or]
  rw [← or_assoc, ← reaches_iff, List.exists_mem_cons_iff]

/-- At most one path leads from a node to another. -/
def Straight (tree : Tree T L) (nid goal : Nat) : Prop :=
  ∀ p q, tree.follow? p nid = some goal → tree.follow? q nid = some goal → p = q

/-- A node is at the end of at most one path from the nodes of a stack, and if there is one the
node is not marked yet. -/
structure Once (tree : Tree T L) (stack : List Nat) (visited : Array Bool) (goal : Nat) : Prop where
  unmarked : ∀ nid ∈ stack, tree.Reaches nid goal → visited.getD goal false = false
  straight : ∀ nid ∈ stack, tree.Straight nid goal
  apart : stack.Pairwise fun a b => ¬ (tree.Reaches a goal ∧ tree.Reaches b goal)

private theorem unmarked_set (hlt : nid < visited.size) :
    (visited.setIfInBounds nid true).getD goal false = false ↔
      goal ≠ nid ∧ visited.getD goal false = false := by
  rw [Array.getD_eq_getD_getElem?, Array.getD_eq_getD_getElem?, Array.getElem?_setIfInBounds]
  by_cases h : nid = goal
  · subst h
    simp [hlt]
  · simp [h, Ne.symm h]

private theorem marked_set (hlt : nid < visited.size) :
    (visited.setIfInBounds nid true).getD goal false = true ↔
      goal = nid ∨ visited.getD goal false = true := by
  rw [← Bool.not_eq_false, unmarked_set hlt, ← Bool.not_eq_false, not_and_or, not_not]

/-- At most one path leads from a node to a goal when none comes back to the node, and at most one
leads to the goal from all children together. -/
theorem straight_of_below
    (hback : ∀ child ∈ tree.below nid, tree.Reaches child goal → goal ≠ nid)
    (hstraight : ∀ child ∈ tree.below nid, tree.Straight child goal)
    (hapart : (tree.below nid).Pairwise fun a b => ¬ (tree.Reaches a goal ∧ tree.Reaches b goal)) :
    tree.Straight nid goal := by
  rw [below, List.pairwise_filterMap] at hapart
  simp only [List.pairwise_cons, List.mem_singleton, forall_eq] at hapart
  have hboth := hapart.1
  rintro (_ | ⟨side, p⟩) (_ | ⟨other, q⟩) hp hq
  · rfl
  · cases hp
    obtain ⟨child, hchild, hrest⟩ := follow?_cons_eq_some.mp hq
    exact absurd rfl (hback child (mem_below.mpr ⟨other, hchild⟩) ⟨q, hrest⟩)
  · cases hq
    obtain ⟨child, hchild, hrest⟩ := follow?_cons_eq_some.mp hp
    exact absurd rfl (hback child (mem_below.mpr ⟨side, hchild⟩) ⟨p, hrest⟩)
  · obtain ⟨a, ha, hpa⟩ := follow?_cons_eq_some.mp hp
    obtain ⟨b, hb, hqb⟩ := follow?_cons_eq_some.mp hq
    by_cases hside : side = other
    · subst hside
      cases ha.symm.trans hb
      rw [hstraight a (mem_below.mpr ⟨side, ha⟩) p q hpa hqb]
    · cases side <;> cases other
      · exact absurd rfl hside
      · exact absurd ⟨⟨p, hpa⟩, ⟨q, hqb⟩⟩ (hboth a ha b hb)
      · exact absurd ⟨⟨q, hqb⟩, ⟨p, hpa⟩⟩ (hboth b hb a ha)
      · exact absurd rfl hside

theorem Straight.below (h : tree.Straight nid goal) :
    (∀ child ∈ tree.below nid, tree.Straight child goal) ∧
      (tree.below nid).Pairwise fun a b => ¬ (tree.Reaches a goal ∧ tree.Reaches b goal) := by
  constructor
  · intro child hchild p q hp hq
    obtain ⟨side, hside⟩ := mem_below.mp hchild
    have heq := h (side :: p) (side :: q) (follow?_cons_eq_some.mpr ⟨child, hside, hp⟩)
      (follow?_cons_eq_some.mpr ⟨child, hside, hq⟩)
    exact (List.cons.inj heq).2
  · rw [Tree.below, List.pairwise_filterMap]
    simp only [List.pairwise_cons, List.mem_singleton, forall_eq]
    refine ⟨?_, by simp⟩
    rintro a ha b hb ⟨⟨p, hp⟩, ⟨q, hq⟩⟩
    have heq := h (.left :: p) (.right :: q) (follow?_cons_eq_some.mpr ⟨a, ha, hp⟩)
      (follow?_cons_eq_some.mpr ⟨b, hb, hq⟩)
    cases heq

/-- Taking a node from the stack, marking it and putting its children there instead changes nothing
about how often other nodes are met; the node itself must not be marked before, nor be met again. -/
theorem once_cons (hlt : nid < visited.size) :
    tree.Once (nid :: stack) visited goal ↔
      (goal = nid → visited.getD nid false = false) ∧
        tree.Once (tree.below nid ++ stack) (visited.setIfInBounds nid true) goal := by
  constructor
  · intro h
    obtain ⟨hfirst, hrest⟩ := List.forall_mem_cons.mp h.unmarked
    obtain ⟨hstraight, hothers⟩ := List.forall_mem_cons.mp h.straight
    obtain ⟨hnid, hpairs⟩ := List.pairwise_cons.mp h.apart
    obtain ⟨hchildren, hsides⟩ := hstraight.below
    refine ⟨?_, ⟨?_, ?_, ?_⟩⟩
    · rintro rfl
      exact hfirst (.refl tree goal)
    · intro start hmem hreach
      rw [unmarked_set hlt]
      rcases List.mem_append.mp hmem with hchild | hstart
      · refine ⟨?_, hfirst (hreach.of_child hchild)⟩
        rintro rfl
        -- a way back to the node would be a second path from it to itself
        obtain ⟨side, hside⟩ := mem_below.mp hchild
        obtain ⟨path, hpath⟩ := hreach
        cases hstraight [] (side :: path) rfl (follow?_cons_eq_some.mpr ⟨start, hside, hpath⟩)
      · refine ⟨?_, hrest start hstart hreach⟩
        rintro rfl
        exact hnid start hstart ⟨.refl tree goal, hreach⟩
    · exact List.forall_mem_append.mpr ⟨hchildren, hothers⟩
    · refine List.pairwise_append.mpr ⟨hsides, hpairs, fun child hchild start hstart hboth => ?_⟩
      exact hnid start hstart ⟨hboth.1.of_child hchild, hboth.2⟩
  · rintro ⟨hunmarked, h⟩
    obtain ⟨hbelow, hrest⟩ := List.forall_mem_append.mp h.unmarked
    obtain ⟨hchildren, hothers⟩ := List.forall_mem_append.mp h.straight
    obtain ⟨hsides, hpairs, hacross⟩ := List.pairwise_append.mp h.apart
    refine ⟨List.forall_mem_cons.mpr ⟨fun hreach => ?_, fun start hstart hreach => ?_⟩,
      List.forall_mem_cons.mpr ⟨?_, hothers⟩, List.pairwise_cons.mpr ⟨?_, hpairs⟩⟩
    · rcases reaches_iff.mp hreach with rfl | ⟨child, hchild, hreach⟩
      · exact hunmarked rfl
      · exact ((unmarked_set hlt).mp (hbelow child hchild hreach)).2
    · exact ((unmarked_set hlt).mp (hrest start hstart hreach)).2
    · exact straight_of_below
        (fun child hchild hreach => ((unmarked_set hlt).mp (hbelow child hchild hreach)).1)
        hchildren hsides
    · rintro start hstart ⟨hreach, hother⟩
      rcases reaches_iff.mp hreach with rfl | ⟨child, hchild, hreach⟩
      · exact ((unmarked_set hlt).mp (hrest start hstart hother)).1 rfl
      · exact hacross child hchild start hstart ⟨hreach, hother⟩

theorem below_eq (hc : tree.Checked) {node : Node T L} (hnode : tree.node? nid = some node) :
    tree.below nid =
      if node.left = noChild then [] else [node.left.toInt.toNat, node.right.toInt.toNat] := by
  obtain ⟨-, hleft, hright, -⟩ := node?_eq_some_iff.mp hnode
  have hs := hc.sound nid (hc.lt hnode)
  by_cases hleaf : node.left = noChild
  · have hboth := hs.bothOrNone
    rw [getD_left hnode, getD_right hnode] at hboth
    have hnone : noChild < 0 := by decide
    simp [below, child?, hleft, hright, hleaf, hboth.mp hleaf, hnone]
  · obtain ⟨hl, hr⟩ := children_lt hs hnode hleaf
    simp [below, child?, hleft, hright, hleaf, hl.1, hr.1]

theorem Checked.below_lt (hc : tree.Checked) (hnid : nid < tree.nodeCount) :
    ∀ child ∈ tree.below nid, child < tree.nodeCount := by
  have hs := hc.sound nid hnid
  obtain ⟨node, hnode⟩ := exists_node hc.columnar hnid hs
  rw [below_eq hc hnode]
  by_cases hleaf : node.left = noChild
  · rw [if_pos hleaf]
    exact List.forall_mem_nil _
  · obtain ⟨hl, hr⟩ := children_lt hs hnode hleaf
    rw [if_neg hleaf, List.forall_mem_cons, List.forall_mem_singleton]
    exact ⟨hl.2, hr.2⟩

theorem Checked.follow?_lt (hc : tree.Checked) {path : List Side} (hnid : nid < tree.nodeCount)
    (h : tree.follow? path nid = some goal) : goal < tree.nodeCount := by
  induction path generalizing nid with
  | nil =>
    cases h
    exact hnid
  | cons side path ih =>
    obtain ⟨child, hchild, hrest⟩ := follow?_cons_eq_some.mp h
    exact ih (hc.below_lt hnid child (mem_below.mpr ⟨side, hchild⟩)) hrest

/-- One step of the walk: a marked node ends it, and another one is marked and gives way to its
children. -/
theorem mark_step (hc : tree.Checked) {steps : Nat} (hnid : nid < tree.nodeCount) :
    tree.mark (steps + 1) (nid :: stack) visited =
      if visited.getD nid false then .error (.structural (.reachedTwice nid))
      else tree.mark steps (tree.below nid ++ stack) (visited.setIfInBounds nid true) := by
  obtain ⟨node, hnode⟩ := exists_node hc.columnar hnid (hc.sound nid hnid)
  cases hseen : visited.getD nid false with
  | true => rw [mark, hseen, if_pos rfl, if_pos rfl]
  | false =>
    rw [mark_fresh hnode hseen, below_eq hc hnode, if_neg Bool.false_ne_true]
    split <;> rfl

/-- Every node that a walk meets is met once, and exactly what the stack reaches is marked behind
it; or it ends at a node that it would meet a second time. -/
theorem mark_outcome (hc : tree.Checked) {steps : Nat} (hsize : visited.size = tree.nodeCount)
    (hcount : visited.count false < steps) (hstack : ∀ nid ∈ stack, nid < tree.nodeCount) :
    (∃ final, tree.mark steps stack visited = .ok final ∧
        (∀ goal, tree.Once stack visited goal) ∧ final.size = tree.nodeCount ∧
        ∀ goal < tree.nodeCount, final.getD goal false = true ↔
          visited.getD goal false = true ∨ ∃ start ∈ stack, tree.Reaches start goal) ∨
      ∃ goal < tree.nodeCount,
        tree.mark steps stack visited = .error (.structural (.reachedTwice goal)) ∧
          ¬ tree.Once stack visited goal := by
  induction steps generalizing stack visited with
  | zero => exact absurd hcount (Nat.not_lt_zero _)
  | succ steps ih =>
    cases stack with
    | nil => exact .inl ⟨visited, rfl, fun goal => ⟨by simp, by simp, .nil⟩, hsize, by simp⟩
    | cons nid stack =>
      obtain ⟨hnid, hrest⟩ := List.forall_mem_cons.mp hstack
      have hlt : nid < visited.size := hsize ▸ hnid
      rw [mark_step hc hnid]
      cases hseen : visited.getD nid false with
      | true =>
        refine .inr ⟨nid, hnid, rfl, fun h => ?_⟩
        rw [h.unmarked nid List.mem_cons_self (.refl tree nid)] at hseen
        cases hseen
      | false =>
        have hfresh : visited[nid] = false := by
          rwa [getD_of_getElem? (Array.getElem?_eq_getElem hlt)] at hseen
        have hmarked := count_marked hlt hfresh
        have hsize' : (visited.setIfInBounds nid true).size = tree.nodeCount := by
          rw [Array.size_setIfInBounds, hsize]
        rw [if_neg Bool.false_ne_true]
        rcases ih hsize' (by omega)
            (List.forall_mem_append.mpr ⟨hc.below_lt hnid, hrest⟩) with
          ⟨final, hok, honce, hfinal, hmarks⟩ | ⟨goal, hgoal, herror, htwice⟩
        · refine .inl ⟨final, hok, fun goal => (once_cons hlt).mpr ⟨fun _ => hseen, honce goal⟩,
            hfinal, fun goal hgoal => ?_⟩
          rw [hmarks goal hgoal, marked_set hlt, exists_reaches_cons, or_assoc, or_left_comm]
        · exact .inr ⟨goal, hgoal, herror, fun h => htwice ((once_cons hlt).mp h).2⟩

/-- How the check for a single root ends: every node has its one path, or some node has two, or
some node has none. -/
theorem checkSingleRooted_outcome (hc : tree.Checked) (hpos : 0 < tree.nodeCount) :
    (tree.checkSingleRooted = .ok () ∧
        ∀ nid < tree.nodeCount, ∃! path, tree.follow? path 0 = some nid) ∨
      (∃ nid < tree.nodeCount,
        tree.checkSingleRooted = .error (.structural (.reachedTwice nid)) ∧
          ∃ p q, p ≠ q ∧ tree.follow? p 0 = some nid ∧ tree.follow? q 0 = some nid) ∨
      ∃ nid < tree.nodeCount, tree.checkSingleRooted = .error (.structural (.orphan nid)) ∧
        ∀ path, tree.follow? path 0 ≠ some nid := by
  have hunmarked : ∀ goal, (Array.replicate tree.nodeCount false).getD goal false = false := by
    intro goal
    rw [Array.getD_eq_getD_getElem?, Array.getElem?_replicate]
    split <;> rfl
  have hcount : (Array.replicate tree.nodeCount false).count false < tree.nodeCount + 1 := by
    rw [Array.count_replicate_self]
    exact Nat.lt_succ_self _
  have honce : ∀ goal, tree.Once [0] (Array.replicate tree.nodeCount false) goal ↔
      tree.Straight 0 goal := by
    intro goal
    constructor
    · intro h
      exact h.straight 0 List.mem_cons_self
    · intro h
      exact ⟨fun _ _ _ => hunmarked goal, List.forall_mem_singleton.mpr h,
        List.pairwise_singleton _ _⟩
  rw [checkSingleRooted]
  rcases mark_outcome hc Array.size_replicate hcount (List.forall_mem_singleton.mpr hpos) with
    ⟨final, hok, hall, hsize, hmarks⟩ | ⟨goal, hgoal, herror, htwice⟩
  · rw [hok, ok_bind]
    cases hfind : final.findIdx? fun seen => !seen with
    | none =>
      refine .inl ⟨rfl, fun nid hnid => ?_⟩
      rw [Array.findIdx?_eq_none_iff] at hfind
      have hseen : final.getD nid false = true := by
        have hlt : nid < final.size := hsize ▸ hnid
        rw [getD_of_getElem? (Array.getElem?_eq_getElem hlt)]
        simpa using hfind _ (Array.getElem_mem hlt)
      rw [hmarks nid hnid, hunmarked] at hseen
      obtain ⟨start, hstart, path, hpath⟩ := hseen.resolve_left Bool.false_ne_true
      cases List.mem_singleton.mp hstart
      exact ⟨path, hpath, fun other hother => (honce nid).mp (hall nid) other path hother hpath⟩
    | some nid =>
      obtain ⟨hlt, hnot, -⟩ := Array.findIdx?_eq_some_iff_getElem.mp hfind
      refine .inr (.inr ⟨nid, hsize ▸ hlt, rfl, fun path hpath => ?_⟩)
      have hseen := (hmarks nid (hsize ▸ hlt)).mpr (.inr ⟨0, List.mem_cons_self, path, hpath⟩)
      rw [getD_of_getElem? (Array.getElem?_eq_getElem hlt)] at hseen
      rw [hseen] at hnot
      cases hnot
  · refine .inr (.inl ⟨goal, hgoal, by rw [herror]; rfl, ?_⟩)
    rw [honce, Straight] at htwice
    push Not at htwice
    obtain ⟨p, q, hp, hq, hne⟩ := htwice
    exact ⟨p, q, hne, hp, hq⟩

end Tree

end Arboretum

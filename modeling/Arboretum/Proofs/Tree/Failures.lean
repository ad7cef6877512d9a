import Arboretum.Proofs.Tree.Locality

/-!
What a call that fails leaves behind. All calls look at their arguments and at the tree before they
change anything, and so a call that fails has changed nothing. The one that appends two children is
the exception: it looks for room once for each of them, and where there is room for one only, that
one has been appended when the call fails.
-/

namespace Arboretum

/-- A failed edit that would otherwise lead somewhere has changed nothing. -/
theorem Edit.Leads.eq_of_error {σ α : Type} {edit : Edit σ α} {s after : σ} {goal : α → σ → Prop}
    {e : Error} (h : edit.Leads s goal) (herror : edit.apply s = (.error e, after)) :
    after = s := by
  rcases h with ⟨_, hrefused⟩ | ⟨_, _, hok, -⟩
  · rw [hrefused] at herror
    cases herror
    rfl
  · rw [hok] at herror
    cases herror

namespace Tree

variable {T L : Type}

/-- The counter of nodes and the columns are in step. Unlike the ranges of the lists, this does not
depend on how far the stores have grown. -/
structure Sized (tree : Tree T L) : Prop where
  numNodes_nonneg : 0 ≤ tree.numNodes
  columnar : tree.Columnar

theorem sized_empty : (empty : Tree T L).Sized := ⟨Int32.le_refl 0, wellKept_empty.columnar⟩

variable {tree after : Tree T L} {nid : Nat}

theorem Sized.edited {change : Node T L → Node T L} {categorical : Bool} (h : tree.Sized)
    (hedited : Edited nid change categorical tree after) : after.Sized :=
  ⟨hedited.numNodes ▸ h.numNodes_nonneg, hedited.columnar h.columnar⟩

theorem Sized.link (h : tree.Sized) (nid left right : Nat) : (tree.link nid left right).Sized :=
  ⟨h.numNodes_nonneg, columnar_linkAll [(nid, left, right)] h.columnar⟩

variable [Numeric T] [Numeric L]

theorem Sized.pushNode (h : tree.Sized) (hlt : tree.numNodes < Int32.maxValue) :
    tree.pushNode.Sized :=
  ⟨(nodeCount_pushNode h.numNodes_nonneg hlt).1, columnar_pushNode h.numNodes_nonneg hlt h.columnar⟩

/-- As long as the columns are in step, only the counter can be in the way of a new node. -/
theorem Sized.apply_allocNode (h : tree.Sized) : (allocNode : Edit (Tree T L) Nat).apply tree =
    if tree.numNodes < Int32.maxValue then (.ok tree.nodeCount, tree.pushNode)
    else (.error (.structural .tooManyNodes), tree) := by
  simp only [allocNode, Edit.apply_bind, Edit.apply_get, Edit.apply_lift,
    checkColumnSizes_eq_ok.mpr h.columnar]
  by_cases hlt : tree.numNodes < Int32.maxValue
  · rw [if_pos hlt, require_eq_ok.mpr hlt]
    rfl
  · rw [if_neg hlt, require_eq_error.mpr ⟨hlt, rfl⟩]

private theorem Sized.pushNode_lt_iff (h : tree.Sized) (hlt : tree.numNodes < Int32.maxValue) :
    tree.pushNode.numNodes < Int32.maxValue ↔ tree.numNodes ≠ Int32.maxValue - 1 := by
  have hmax : Int32.maxValue.toInt = 2147483647 := by decide
  have hlast : (Int32.maxValue - 1).toInt = 2147483646 := by decide
  have hpos := Int32.le_iff_toInt_le.mp h.numNodes_nonneg
  obtain ⟨hpos', hcount⟩ := nodeCount_pushNode h.numNodes_nonneg hlt
  rw [Int32.le_iff_toInt_le] at hpos'
  rw [nodeCount, nodeCount] at hcount
  rw [Int32.lt_iff_toInt_lt, hmax] at hlt ⊢
  rw [Ne, ← Int32.toInt_inj, hlast]
  rw [Int32.toInt_zero] at hpos hpos'
  omega

/-- Two children are appended or nothing is changed, unless there is room for one of them only. -/
theorem Sized.addChildren_outcome (h : tree.Sized) (nid : Nat) :
    (addChildren nid : Edit (Tree T L) Unit).Leads tree (fun _ after => after.Sized) ∧
        ¬ (nid < tree.nodeCount ∧ tree.numNodes = Int32.maxValue - 1) ∨
      (nid < tree.nodeCount ∧ tree.numNodes = Int32.maxValue - 1) ∧
        (addChildren nid : Edit (Tree T L) Unit).apply tree =
          (.error (.structural .tooManyNodes), tree.pushNode) := by
  by_cases hshort : nid < tree.nodeCount ∧ tree.numNodes = Int32.maxValue - 1
  · obtain ⟨hnid, hlast⟩ := hshort
    have hlt : tree.numNodes < Int32.maxValue := by
      rw [hlast]
      decide
    have hfull : ¬ tree.pushNode.numNodes < Int32.maxValue :=
      fun hlt' => (h.pushNode_lt_iff hlt).mp hlt' hlast
    have hcheck : (checkNode nid : Edit (Tree T L) Unit).apply tree = (.ok (), tree) := by
      simp only [checkNode, Edit.apply_bind, Edit.apply_get, Edit.apply_lift,
        require_eq_ok.mpr hnid]
    refine .inr ⟨⟨hnid, hlast⟩, ?_⟩
    simp only [addChildren, Edit.apply_bind, hcheck, h.apply_allocNode, if_pos hlt,
      (h.pushNode hlt).apply_allocNode, if_neg hfull]
  · refine .inl ⟨?_, hshort⟩
    rw [addChildren]
    refine checkNode_leads fun hnid => .bind ((allocNode_leads tree).mono ?_)
    rintro left _ ⟨-, hlt, -, rfl⟩
    have hone := h.pushNode hlt
    have hlt' := (h.pushNode_lt_iff hlt).mpr fun hlast => hshort ⟨hnid, hlast⟩
    refine ⟨(), tree.pushNode.pushNode.link nid left tree.pushNode.nodeCount, ?_,
      (hone.pushNode hlt').link nid left _⟩
    simp only [Edit.apply_bind, hone.apply_allocNode, if_pos hlt', Edit.apply_modify]

/-- Every call but the one that appends two nodes changes nothing where it fails, and keeps the
columns in step. -/
theorem perform_leads {change : Change T L} (hother : ∀ nid, change ≠ .addChildren nid)
    (tree : Tree T L) : change.perform.Leads tree fun _ after => tree.Sized → after.Sized := by
  cases change with
  | reset =>
    have hroom : (0 : Int32) < Int32.maxValue := by decide
    exact .of_eq rfl fun _ => sized_empty.pushNode hroom
  | allocNode =>
    refine .bind ((allocNode_leads tree).mono ?_)
    rintro _ _ ⟨-, hlt, -, rfl⟩
    exact ⟨(), _, rfl, fun h => h.pushNode hlt⟩
  | addChildren nid => exact absurd rfl (hother nid)
  | setChildren nid left right =>
    refine (setChildren_leads tree nid left right).mono ?_
    rintro _ _ ⟨-, -, -, rfl⟩ h
    exact h.link nid left right
  | setNumericalSplit _ feature threshold defaultLeft comparison =>
    exact (setNumericalSplit_edited feature threshold defaultLeft comparison).mono
      fun _ _ hedited h => h.edited hedited
  | setCategoricalSplit _ feature defaultLeft categories matchGoesRight =>
    exact (setCategoricalSplit_edited feature defaultLeft categories matchGoesRight).mono
      fun _ _ hedited h => h.edited hedited
  | setLeaf _ value => exact (setLeaf_edited value).mono fun _ _ hedited h => h.edited hedited
  | setLeafVector _ values =>
    exact (setLeafVector_edited values).mono fun _ _ hedited h => h.edited hedited
  | setDataCount _ count =>
    exact (setDataCount_edited count).mono fun _ _ hedited h => h.edited hedited
  | setSumHess _ sum => exact (setSumHess_edited sum).mono fun _ _ hedited h => h.edited hedited
  | setGain _ gain => exact (setGain_edited gain).mono fun _ _ hedited h => h.edited hedited

omit [Numeric T] [Numeric L] in
theorem exists_addChildren_or (change : Change T L) :
    (∃ nid, change = .addChildren nid) ∨ ∀ nid, change ≠ .addChildren nid := by
  cases change with
  | addChildren nid => exact .inl ⟨nid, rfl⟩
  | _ => exact .inr fun _ h => by cases h

theorem Sized.perform (h : tree.Sized) (change : Change T L) :
    (change.perform.apply tree).2.Sized := by
  rcases exists_addChildren_or change with ⟨nid, rfl⟩ | hother
  · rcases h.addChildren_outcome nid with ⟨hleads, -⟩ | ⟨⟨-, hlast⟩, hshort⟩
    · exact hleads.left h fun _ _ hsized => hsized
    · have hcall : ((Change.addChildren nid).perform.apply tree).2 = tree.pushNode :=
        congrArg Prod.snd hshort
      rw [hcall]
      refine h.pushNode ?_
      rw [hlast]
      decide
  · exact (perform_leads hother tree).left h fun _ _ hsized => hsized h

theorem Sized.run (h : tree.Sized) (changes : List (Change T L)) : (tree.run changes).Sized := by
  induction changes generalizing tree with
  | nil => exact h
  | cons change changes ih => exact ih (h.perform change)

private theorem run_concat (tree : Tree T L) (changes : List (Change T L)) (change : Change T L) :
    tree.run (changes ++ [change]) = (change.perform.apply (tree.run changes)).2 := by
  rw [run, List.foldl_append]
  rfl

/-- Whatever calls have changed a tree since it was empty, one more that fails leaves the whole tree
as it was, the counter, all columns, both stores and the flag for membership tests, unless it is to
append two children and there is room for one. Exactly then the first child is there when the call
fails, and no node points at it. -/
theorem failed_change_iff (changes : List (Change T L)) (change : Change T L) {e : Error}
    (herror : change.perform.apply ((empty : Tree T L).run changes) = (.error e, after)) :
    (after ≠ (empty : Tree T L).run changes ↔
      ((empty : Tree T L).run changes).numNodes = Int32.maxValue - 1 ∧
        ∃ nid < ((empty : Tree T L).run changes).nodeCount, change = .addChildren nid) ∧
    (after ≠ (empty : Tree T L).run changes →
      after = ((empty : Tree T L).run changes).pushNode ∧ e = .structural .tooManyNodes) := by
  have hsized := (sized_empty : (empty : Tree T L).Sized).run changes
  generalize (empty : Tree T L).run changes = tree at hsized herror ⊢
  rcases exists_addChildren_or change with ⟨nid, rfl⟩ | hother
  · rcases hsized.addChildren_outcome nid with ⟨hleads, hroom⟩ | ⟨⟨hnid, hlast⟩, hshort⟩
    · obtain rfl := hleads.eq_of_error herror
      refine ⟨iff_of_false (fun hne => hne rfl) ?_, fun hne => absurd rfl hne⟩
      rintro ⟨hlast, _, hnid, ⟨⟩⟩
      exact hroom ⟨hnid, hlast⟩
    · cases hshort.symm.trans herror
      have hgrown : tree.pushNode ≠ tree := by
        intro heq
        have hsize := congrArg (fun t => t.kind.size) heq
        simp [pushNode] at hsize
      exact ⟨iff_of_true hgrown ⟨hlast, nid, hnid, rfl⟩, fun _ => ⟨rfl, rfl⟩⟩
  · obtain rfl := (perform_leads hother tree).eq_of_error herror
    refine ⟨iff_of_false (fun hne => hne rfl) ?_, fun hne => absurd rfl hne⟩
    rintro ⟨-, nid, -, heq⟩
    exact hother nid heq

/-- A leaf cannot be set in a tree that has only one other node, and the tree stays as it is. -/
theorem failed_change_iff_missing :
    ∃ after, (Change.setLeaf 1 Score.one).perform.apply
        ((empty : Tree Double Double).run [.allocNode]) =
          (.error (.structural (.noSuchNode 1 1)), after) ∧
      after = (empty : Tree Double Double).run [.allocNode] := by
  have hfail : (Change.setLeaf 1 Score.one).perform.apply
      ((empty : Tree Double Double).run [.allocNode]) =
        (.error (.structural (.noSuchNode 1 1)), (empty : Tree Double Double).run [.allocNode]) :=
    by decide +kernel
  obtain ⟨hiff, -⟩ := failed_change_iff [.allocNode] (Change.setLeaf 1 Score.one) hfail
  refine ⟨_, hfail, not_not.mp (mt hiff.mp ?_)⟩
  rintro ⟨hlast, -⟩
  revert hlast
  decide +kernel

theorem nodeCount_run_allocNode {count : Nat} (hcount : count ≤ 2147483647) :
    ((empty : Tree T L).run (List.replicate count .allocNode)).nodeCount = count := by
  induction count with
  | zero => rfl
  | succ count ih =>
    have hsized := (sized_empty : (empty : Tree T L).Sized).run (List.replicate count .allocNode)
    have hbefore := ih (by omega)
    rw [List.replicate_succ', run_concat]
    generalize (empty : Tree T L).run (List.replicate count .allocNode) = tree at hsized hbefore ⊢
    have hlt : tree.numNodes < Int32.maxValue := by
      have hmax : Int32.maxValue.toInt = 2147483647 := by decide
      rw [Int32.lt_iff_toInt_lt, hmax]
      rw [nodeCount] at hbefore
      omega
    obtain ⟨-, hgrown⟩ := nodeCount_pushNode hsized.numNodes_nonneg hlt
    rw [Change.perform, Edit.apply_bind, hsized.apply_allocNode, if_pos hlt]
    exact hgrown.trans (congrArg (· + 1) hbefore)

/-- With one node less than there can be, the call for two children fails and leaves one of them. -/
theorem addChildren_leaves_first :
    let tree := (empty : Tree Double Double).run (List.replicate 2147483646 .allocNode)
    ∃ after, (Change.addChildren 0).perform.apply tree =
        (.error (.structural .tooManyNodes), after) ∧
      after.nodeCount = tree.nodeCount + 1 ∧ after ≠ tree := by
  intro tree
  have hsized : tree.Sized := sized_empty.run _
  have hcount : tree.nodeCount = 2147483646 := nodeCount_run_allocNode (by decide)
  have hlast : tree.numNodes = Int32.maxValue - 1 := by
    have hend : (Int32.maxValue - 1).toInt = 2147483646 := by decide
    rw [← Int32.toInt_inj, hend]
    rw [nodeCount] at hcount
    omega
  have hlt : tree.numNodes < Int32.maxValue := by
    rw [hlast]
    decide
  have hnid : 0 < tree.nodeCount := by omega
  rcases hsized.addChildren_outcome 0 with ⟨-, hroom⟩ | ⟨-, hshort⟩
  · exact absurd ⟨hnid, hlast⟩ hroom
  · obtain ⟨-, hgrown⟩ := nodeCount_pushNode hsized.numNodes_nonneg hlt
    refine ⟨tree.pushNode, hshort, hgrown, fun heq => ?_⟩
    rw [heq] at hgrown
    omega

end Tree

end Arboretum

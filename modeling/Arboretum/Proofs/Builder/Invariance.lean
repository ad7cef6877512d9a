import Arboretum.Proofs.Builder.Respelling

/-!
Predictions do not depend on how trees are spelled to a builder. Where one spelling of a model is
accepted, every other one is, tree by tree, and all numbers that the two committed models predict
are the same.
-/

namespace Arboretum

/-- A tree as a builder closes it. -/
structure ClosedTree {T : Type} [Score T] (nodes : List DeclaredNode) (tree : Tree T T) : Prop where
  built : tree.Bounded → Built nodes tree
  stocked : Stocked nodes tree
  valid : tree.validate = .ok ()
  nonempty : 0 < tree.nodeCount

namespace Respelled

variable {T : Type} [Score T] {nodes others : List DeclaredNode} {tree other : Tree T T}

omit [Score T] in
theorem bounded (h : Respelled nodes others) (hstocked : Stocked nodes tree)
    (hother : Stocked others other) (hb : tree.Bounded) : other.Bounded := by
  rw [hother.bounded_iff, h.handedOver_eq Request.Respelled.outputCount_eq,
    h.handedOver_eq Request.Respelled.categoryCount_eq, ← hstocked.bounded_iff]
  exact hb

theorem complete (h : Respelled nodes others) : ∀ other ∈ others, other.Complete := by
  obtain ⟨ρ, -, -, hrenamed, -, horder⟩ := h
  intro other hother
  obtain ⟨declared, -, hrespelled⟩ := exists_node hrenamed horder hother
  exact hrespelled.complete

theorem children (h : Respelled nodes others) (hbuilt : Built nodes tree) :
    ∀ other ∈ others, ∀ left right, other.childKeys? = some (left, right) →
      left ∈ others.map DeclaredNode.key ∧ right ∈ others.map DeclaredNode.key := by
  obtain @⟨ρ, _, renamed, _, -, -, hrenamed, -, horder⟩ := h
  have hrename : ∀ key ∈ nodes.map DeclaredNode.key, ρ key ∈ others.map DeclaredNode.key := by
    intro key hkey
    rw [← (horder.map DeclaredNode.key).mem_iff, keys_renamed hrenamed]
    exact List.mem_map_of_mem hkey
  intro other hother left right hkeys
  obtain ⟨declared, hdeclared, hrespelled⟩ := exists_node hrenamed horder hother
  rw [hrespelled.childKeys?_eq] at hkeys
  obtain ⟨⟨l, r⟩, hchildren, hpair⟩ := Option.map_eq_some_iff.mp hkeys
  cases hpair
  obtain ⟨hleft, hright⟩ := hbuilt.children declared hdeclared l r hchildren
  exact ⟨hrename l hleft, hrename r hright⟩

theorem finish_ok (h : Respelled nodes others) (hclosed : ClosedTree nodes tree)
    (hb : tree.Bounded) {draft : Draft T} (hdraft : draft.Follows others)
    (hstocked : Stocked others draft.tree) : ∃ closed, draft.finish = .ok closed := by
  have hbuilt := hclosed.built hb
  obtain ⟨links, hlinks⟩ := hdraft.links_ok (h.children hbuilt)
  have hlinked := hstocked.linkAll links
  have hbounded := h.bounded hclosed.stocked hlinked hb
  have hother := hdraft.built_of_links h.complete hlinks hbounded
  have hpos : 0 ≤ (draft.tree.linkAll links).numNodes := by
    obtain ⟨left, right, heq⟩ := Tree.linkAll_eq links draft.tree
    rw [heq]
    exact hdraft.numNodes
  have hchecked := Tree.Checked.of_validate hclosed.valid
  obtain ⟨hnonneg, -⟩ := Tree.validate_eq_ok.mp hclosed.valid
  -- the linked tree is not checked anew: it is a renumbering of one that has passed the check
  obtain ⟨σ, τ, hrenumbered⟩ := h.renumbered hbuilt hother hchecked.columnar hnonneg hpos
  refine ⟨_, hdraft.finish_ok hlinks (hrenumbered.validate hclosed.valid ?_ ?_)⟩
  · exact Tree.columnar_linkAll links hdraft.columnar
  · exact hlinked.ranges hbounded

/-- Both spellings of a closed tree give the same tree, but for the numbers of its nodes. -/
theorem alike (h : Respelled nodes others) (hclosed : ClosedTree nodes tree) (hb : tree.Bounded)
    (hother : ClosedTree others other) : tree.Alike other := by
  have hbuilt := hother.built (h.bounded hclosed.stocked hother.stocked hb)
  have hchecked := Tree.Checked.of_validate hclosed.valid
  obtain ⟨hnonneg, -⟩ := Tree.validate_eq_ok.mp hclosed.valid
  obtain ⟨hnonneg', -⟩ := Tree.validate_eq_ok.mp hother.valid
  exact ⟨hclosed.nonempty, hclosed.valid, hother.valid,
    h.renumbered (hclosed.built hb) hbuilt hchecked.columnar hnonneg hnonneg'⟩

private theorem all_alike {trees spelled : List (List DeclaredNode)} {built again : List (Tree T T)}
    (h : List.Forall₂ Respelled trees spelled) (hclosed : List.Forall₂ ClosedTree trees built)
    (hother : List.Forall₂ ClosedTree spelled again) (hb : ∀ tree ∈ built, tree.Bounded) :
    List.Forall₂ Tree.Alike built again := by
  induction h generalizing built again with
  | nil =>
    cases hclosed
    cases hother
    exact .nil
  | cons hfirst _ ih =>
    obtain _ | ⟨hone, hrest⟩ := hclosed
    obtain _ | ⟨hother, hothers⟩ := hother
    obtain ⟨hbound, hb⟩ := List.forall_mem_cons.mp hb
    exact .cons (hfirst.alike hone hbound hother) (ih hrest hothers hb)

theorem fits (h : Respelled nodes others) (hbuilt : Built nodes tree) {start : Builder}
    (hfits : ∀ declared ∈ nodes, declared.Fits start) : ∀ other ∈ others, other.Fits start := by
  obtain ⟨ρ, hnonneg, hinjective, hrenamed, -, horder⟩ := h
  have hkeys : ∀ key ∈ nodes.map DeclaredNode.key, 0 ≤ ρ key ∧
      ∀ key' ∈ nodes.map DeclaredNode.key, ρ key = ρ key' → key = key' := by
    simp only [List.mem_map, forall_exists_index, and_imp, forall_apply_eq_imp_iff₂]
    exact fun declared hdeclared => ⟨hnonneg declared hdeclared, hinjective declared hdeclared⟩
  intro other hother
  obtain ⟨declared, hdeclared, hrespelled⟩ := exists_node hrenamed horder hother
  obtain ⟨hown, hinj⟩ := hkeys declared.key (List.mem_map_of_mem hdeclared)
  obtain ⟨request, given, hrequest, hgiven, hsame⟩ := hrespelled.detail
  refine ⟨hrespelled.key_eq ▸ hown, fun detail hdetail => ?_⟩
  rw [hgiven, Option.mem_some] at hdetail
  rw [← hdetail, hrespelled.key_eq]
  refine hsame.fits ((hfits declared hdeclared).detail request hrequest) ?_
  rintro left right hchildren ⟨-, hdistinct, hleft_ne, hright_ne⟩
  have hnamed : declared.childKeys? = some (left, right) := by
    rw [DeclaredNode.childKeys?, hrequest, Option.bind_some, hchildren]
  obtain ⟨hleft, hright⟩ := hbuilt.children declared hdeclared left right hnamed
  obtain ⟨hleft_pos, hleft_inj⟩ := hkeys left hleft
  obtain ⟨hright_pos, hright_inj⟩ := hkeys right hright
  have hkey := List.mem_map_of_mem (f := DeclaredNode.key) hdeclared
  exact ⟨⟨hleft_pos, hright_pos⟩, mt (hleft_inj right hright) hdistinct,
    mt (hleft_inj _ hkey) hleft_ne, mt (hright_inj _ hkey) hright_ne⟩

end Respelled

namespace Builder

/-- A builder accepts the other spelling of a tree that it has accepted. -/
theorem spellable_of_respelled {start : Builder} {nodes others : List DeclaredNode}
    {tree : Tree start.precision.Word start.precision.Word} (h : Respelled nodes others)
    (hclosed : ClosedTree nodes tree) (hb : tree.Bounded)
    (hfits : ∀ declared ∈ nodes, declared.Fits start) : Spellable start others := by
  have hbuilt := hclosed.built hb
  have hlength := h.length_eq
  rw [← hbuilt.count] at hlength
  refine ⟨?_, ?_, ?_, ?_, h.fits hbuilt hfits, fun trees b hstands => ?_⟩
  · rintro rfl
    exact absurd hclosed.nonempty (by rw [← hlength]; decide)
  · rw [hlength]
    exact tree.nodeCount_lt
  · obtain ⟨ρ, -, hinjective, hrenamed, -, horder⟩ := h
    rw [← (horder.map DeclaredNode.key).nodup_iff, keys_renamed hrenamed]
    refine List.Nodup.map_on ?_ hbuilt.keys
    simpa only [List.mem_map, forall_exists_index, and_imp, forall_apply_eq_imp_iff₂]
      using hinjective
  · intro other hother
    obtain ⟨ρ, -, -, hrenamed, -, horder⟩ := h
    obtain ⟨declared, -, hrespelled⟩ := Respelled.exists_node hrenamed horder hother
    exact hrespelled.spelled
  · -- the type of the draft depends on the precision, which both runs have from the start
    obtain ⟨precision, numTree, leafShape, info, closed, draft, phase⟩ := b
    have hprecision : precision = start.precision := hstands.follows.precision
    subst hprecision
    exact h.finish_ok hclosed hb hstands.follows.draft hstands.vetted.draft

theorem Stands.commit_eq {start b spent : Builder} {declaration : Declaration}
    {phase : BuilderPhase} {model : Model} (h : Stands start declaration phase b)
    (hcommit : commit.apply b = (.ok model, spent)) :
    ∃ trees : Array (Tree start.precision.Word start.precision.Word),
      model = ⟨⟨start.precision, false⟩, trees, start.info, .current, 0⟩ ∧
      trees.size = start.numTree.toNat ∧
      List.Forall₂ ClosedTree declaration.trees trees.toList := by
  obtain ⟨hphase, hsize, rfl, -⟩ := (commit_leads b).goal_of_ok hcommit
  obtain ⟨precision, numTree, leafShape, info, trees, draft, last⟩ := b
  have hprecision : precision = start.precision := h.follows.precision
  have hinfo : info = start.info := h.sound.info
  have hnum : numTree = start.numTree := h.sound.numTree
  subst hprecision hinfo
  have hopen : last ≠ .modelComplete := by
    rintro rfl
    cases hphase
  refine ⟨trees, rfl, hnum ▸ hsize, ?_⟩
  obtain ⟨hlength, hbuilt⟩ := List.forall₂_iff_zip.mp (h.follows.trees hopen)
  obtain ⟨-, hstocked⟩ := List.forall₂_iff_zip.mp (h.vetted.trees hopen)
  refine List.forall₂_iff_zip.mpr ⟨hlength, fun hpair => ?_⟩
  obtain ⟨hvalid, hnonempty, -⟩ :=
    h.sound.trees _ (Array.mem_toList_iff.mp (List.of_mem_zip hpair).2)
  exact ⟨hbuilt hpair, hstocked hpair, hvalid, hnonempty⟩

section Runs

variable {threshold leaf : ValueType} {metadata : Metadata} {routing : TreeRouting}
  {choice : PostprocessorChoice} {baseScores : Array Double} {attributes : Option String}
  {start spent : Builder} {model : Model}

/-- Let all calls of a run go through and a model be committed behind them, of trees whose stores 64
bits can count. Then these calls spell the trees that they declare. All calls that spell the same
trees in another way go through too, and the model committed behind them predicts as the first one
does: whatever is asked for except the numbers of leaves, on any machine, for any input and any
number of threads, both predictions write the same or both end with an error and leave the buffer
alone. -/
theorem predictions_of_respelled (first : List Request) {others : List (List DeclaredNode)}
    (hcreate : create threshold leaf metadata routing choice baseScores attributes = .ok start)
    (hall : ∀ entry ∈ start.transcript first, succeeded entry = true)
    (hcommit : commit.apply (start.run first) = (.ok model, spent))
    (hmemory : ∀ tree ∈ model.trees, tree.Bounded)
    (hrespelled : List.Forall₂ Respelled (Declaration.ofCalls first).trees others) :
    spelling (Declaration.ofCalls first).trees = first ∧
    (∀ entry ∈ start.transcript (spelling others), succeeded entry = true) ∧
    ∃ (other : Model) (spent' : Builder),
      commit.apply (start.run (spelling others)) = (.ok other, spent') ∧
      ∀ {α : Type} [Score α] (machine : Machine) (config : Configuration) (input : Array α)
        (numRow : Nat) (out : Array α), config.kind ≠ .leafId →
        (∃ after, (model.predictOn machine config input numRow).apply out = (.ok (), after) ∧
          (other.predictOn machine config input numRow).apply out = (.ok (), after)) ∨
        ∃ e e', (model.predictOn machine config input numRow).apply out = (.error e, out) ∧
          (other.predictOn machine config input numRow).apply out = (.error e', out) := by
  have hfresh := create_stands hcreate
  obtain ⟨last, hfirst, hspelled⟩ := hfresh.run_spelled hall
  obtain rfl : last = .expectTree := by
    rw [← hfirst.phase_eq]
    exact ((commit_leads _).goal_of_ok hcommit).1
  obtain ⟨trees, rfl, hsize, hclosed⟩ := hfirst.commit_eq hcommit
  have hspellable : ∀ nodes ∈ others, Spellable start nodes := by
    intro nodes hnodes
    obtain ⟨i, hi⟩ := List.getElem?_of_mem hnodes
    obtain ⟨declared, hdeclared, hsame⟩ := exists_partner hrespelled hi
    obtain ⟨tree, htree, htreeClosed⟩ := exists_partner hclosed.flip hdeclared
    have hmem := List.mem_of_getElem? htree
    exact spellable_of_respelled hsame htreeClosed (hmemory tree (Array.mem_toList_iff.mp hmem))
      (hfirst.vetted.closed declared (List.mem_of_getElem? hdeclared))
  have hlength : others.length = start.numTree.toNat := by
    rw [← hsize, ← Array.length_toList, ← hclosed.length_eq, ← hrespelled.length_eq]
    rfl
  obtain ⟨hothers, hsecond⟩ := Carries.allTrees hspellable
    (by rw [List.length_nil, Nat.zero_add, hlength]) start hfresh
  have hfull : (start.run (spelling others)).trees.size =
      (start.run (spelling others)).numTree.toNat := by
    have htrees := hsecond.vetted.trees (by rw [hsecond.phase_eq]; decide)
    rw [hsecond.sound.numTree, ← Array.length_toList, ← htrees.length_eq, ← hlength]
    rfl
  obtain ⟨other, spent', hcommitted⟩ := commit_succeeds hsecond.phase_eq hfull
  refine ⟨hspelled, hothers, other, spent', hcommitted, ?_⟩
  obtain ⟨again, rfl, -, hclosedAgain⟩ := hsecond.commit_eq hcommitted
  have halike : Model.Alike ⟨⟨start.precision, false⟩, trees, start.info, .current, 0⟩
      ⟨⟨start.precision, false⟩, again, start.info, .current, 0⟩ :=
    ⟨Respelled.all_alike hrespelled hclosed hclosedAgain
      fun tree htree => hmemory tree (Array.mem_toList_iff.mp htree)⟩
  intro α _ machine config input numRow out hkind
  exact halike.predictOn machine hkind input numRow out

end Runs

def fork : List DeclaredNode :=
  [⟨9, [.numericalTest 0 Score.one true .less 5 2, .gain ⟨0⟩]⟩, ⟨5, [.leafScalar Score.one]⟩,
    ⟨2, [.leafScalar ⟨0⟩]⟩]

/-- The same test under larger keys and with its leaves the other way round. -/
def forkReversed : List DeclaredNode :=
  [⟨10, [.dataCount 4, .numericalTest 0 Score.one true .less 6 3]⟩, ⟨3, [.leafScalar ⟨0⟩]⟩,
    ⟨6, [.leafScalar Score.one, .sumHess ⟨0⟩]⟩]

private theorem fork_respelled : Respelled fork forkReversed := by
  have hroot : DeclaredNode.Respelled (· + 1)
      ⟨9, [.numericalTest 0 Score.one true .less 5 2, .gain ⟨0⟩]⟩
      ⟨10, [.dataCount 4, .numericalTest 0 Score.one true .less 6 3]⟩ :=
    @DeclaredNode.Respelled.intro _ _ _ _ [.dataCount 4] [] rfl
      (.numericalTest 0 Score.one true .less 5 2) (by simp [Request.isStatistic]) (by simp)
  have hleft : DeclaredNode.Respelled (· + 1) ⟨5, [.leafScalar Score.one]⟩
      ⟨6, [.leafScalar Score.one, .sumHess ⟨0⟩]⟩ :=
    @DeclaredNode.Respelled.intro _ _ _ _ [] [.sumHess ⟨0⟩] rfl (.leafScalar Score.one) (by simp)
      (by simp [Request.isStatistic])
  have hright : DeclaredNode.Respelled (· + 1) ⟨2, [.leafScalar ⟨0⟩]⟩ ⟨3, [.leafScalar ⟨0⟩]⟩ :=
    @DeclaredNode.Respelled.intro _ _ _ _ [] [] rfl (.leafScalar ⟨0⟩) (by simp) (by simp)
  exact .intro (· + 1) (by decide) (by decide) (.cons hroot (.cons hleft (.cons hright .nil))) rfl
    ((List.Perm.swap _ _ []).cons _)

/-- The leaves of the fork come out under each other's numbers, and a row still gets the output of
the one that it belongs to. -/
theorem predictions_of_respelled_fork :
    ∃ (start spent spent' : Builder) (model other : Model), stump 0 0 = .ok start ∧
      commit.apply (start.run (spelling [fork])) = (.ok model, spent) ∧
      commit.apply (start.run (spelling [forkReversed])) = (.ok other, spent') ∧
      (model.predictOn (.ofCores 1) ⟨.raw, 1⟩ #[(⟨0⟩ : Double)] 1).apply #[⟨0⟩] =
        (.ok (), #[Score.one]) ∧
      (other.predictOn (.ofCores 1) ⟨.raw, 1⟩ #[(⟨0⟩ : Double)] 1).apply #[⟨0⟩] =
        (.ok (), #[Score.one]) := by
  obtain ⟨start, spent, model, hcreate, hcommit, hmemory, hpredicted⟩ :=
    exists_committed (stump 0 0) (spelling [fork])
      (fun model => (∀ tree ∈ model.trees, tree.Bounded) ∧
        (model.predictOn (.ofCores 1) ⟨.raw, 1⟩ #[(⟨0⟩ : Double)] 1).apply #[⟨0⟩] =
          (.ok (), #[Score.one])) (by decide +kernel)
  have hall : ∀ entry ∈ start.transcript (spelling [fork]), succeeded entry = true := by
    have hcomputed : (stump 0 0).map (fun start =>
        (start.transcript (spelling [fork])).all succeeded) = .ok true := by decide +kernel
    rw [hcreate] at hcomputed
    exact List.all_eq_true.mp (Except.ok.inj hcomputed)
  obtain ⟨-, -, other, spent', hagain, hsame⟩ := predictions_of_respelled (spelling [fork])
    hcreate hall hcommit hmemory (.cons fork_respelled .nil)
  refine ⟨start, spent, spent', model, other, hcreate, hcommit, hagain, hpredicted, ?_⟩
  rcases hsame (.ofCores 1) ⟨.raw, 1⟩ #[(⟨0⟩ : Double)] 1 #[⟨0⟩] (by decide) with
    ⟨after, hfirst, hsecond⟩ | ⟨e, e', hfirst, -⟩
  · rw [hpredicted] at hfirst
    cases hfirst
    exact hsecond
  · rw [hpredicted] at hfirst
    cases hfirst

end Builder

end Arboretum

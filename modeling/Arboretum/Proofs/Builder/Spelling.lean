import Arboretum.Proofs.Builder.Stage

/-!
Declarations as calls. A run without refused calls spells what it declares, node after node and
tree after tree. The other way round, a declaration whose nodes fit can be spelled to a builder:
each call takes it to the next stage and none is refused.
-/

namespace Arboretum

def DeclaredNode.requests (declared : DeclaredNode) : List Request :=
  .startNode declared.key :: (declared.calls ++ [.endNode])

def spellTree (nodes : List DeclaredNode) : List Request :=
  .startTree :: (nodes.flatMap DeclaredNode.requests ++ [.endTree])

def spelling (trees : List (List DeclaredNode)) : List Request := trees.flatMap spellTree

/-- The calls that have brought a declaration to a phase. The current node lacks only its end. -/
def Declaration.spelled (declaration : Declaration) : BuilderPhase → List Request
  | .expectTree => spelling declaration.trees
  | .expectNode =>
    spelling declaration.trees ++ .startTree :: declaration.nodes.flatMap DeclaredNode.requests
  | .expectDetail | .nodeComplete =>
    spelling declaration.trees ++
      .startTree :: (declaration.nodes.flatMap DeclaredNode.requests).dropLast
  | .modelComplete => spelling declaration.trees ++ [.commit]

/-- The calls on a node are one test or output and statistics around it. -/
inductive DeclaredNode.Spelled : DeclaredNode → Prop where
  | intro (key : Int32) {before after : List Request} {detail : Request}
    (hdetail : detail.isDetail = true) (hbefore : ∀ request ∈ before, request.isStatistic = true)
    (hafter : ∀ request ∈ after, request.isStatistic = true) :
    DeclaredNode.Spelled ⟨key, before ++ detail :: after⟩

theorem filter_isDetail {before after : List Request} {detail : Request}
    (hdetail : detail.isDetail = true) (hbefore : ∀ request ∈ before, request.isStatistic = true)
    (hafter : ∀ request ∈ after, request.isStatistic = true) :
    (before ++ detail :: after).filter Request.isDetail = [detail] := by
  have hnone : ∀ requests : List Request, (∀ request ∈ requests, request.isStatistic = true) →
      requests.filter Request.isDetail = [] := by
    intro requests h
    refine List.filter_eq_nil_iff.mpr fun request hrequest => ?_
    rw [Request.isDetail_of_isStatistic (h request hrequest)]
    decide
  rw [List.filter_append, List.filter_cons_of_pos hdetail, hnone before hbefore,
    hnone after hafter, List.nil_append]

theorem DeclaredNode.detail?_of_filter {declared : DeclaredNode} {detail : Request}
    (h : declared.calls.filter Request.isDetail = [detail]) : declared.detail? = some detail := by
  rw [detail?, ← List.head?_filter, h, List.head?_cons]

private theorem dropLast_requests (done : List DeclaredNode) (last : DeclaredNode) :
    ((done ++ [last]).flatMap DeclaredNode.requests).dropLast =
      done.flatMap DeclaredNode.requests ++ .startNode last.key :: last.calls := by
  rw [List.flatMap_append, List.flatMap_singleton, DeclaredNode.requests, ← List.cons_append,
    ← List.append_assoc, List.dropLast_concat]

namespace Builder

/-- One more call is one more call of the spelling. -/
theorem spelled_add {declaration : Declaration} {request : Request} {phase next : BuilderPhase}
    (hphased : Phased declaration.nodes phase) (hnext : phase.after? request.kind = some next) :
    (declaration.add request).spelled next = declaration.spelled phase ++ [request] := by
  -- a call on the current node goes in front of the end that its node still lacks
  have hcurrent : phase = .expectDetail ∨ phase = .nodeComplete →
      next = .expectDetail ∨ next = .nodeComplete →
      ∀ call : Request, call.isDetail = true ∨ call.isStatistic = true →
        (declaration.add call).spelled next = declaration.spelled phase ++ [call] := by
    intro hopen hstill call hcall
    obtain ⟨done, last, hnodes⟩ := hphased.exists_last hopen
    rw [declaration.add_of_call hcall, hnodes, List.modifyLast_concat]
    rcases hopen with rfl | rfl <;> rcases hstill with rfl | rfl
    all_goals
      simp only [Declaration.spelled, hnodes, dropLast_requests, DeclaredNode.add,
        List.append_assoc, List.cons_append]
  cases request with
  | startTree =>
    cases phase <;> cases hnext
    rfl
  | endTree =>
    cases phase <;> cases hnext
    simp only [Declaration.spelled, Declaration.add, spelling, spellTree, List.flatMap_append,
      List.flatMap_singleton, List.append_assoc, List.cons_append]
  | startNode key =>
    cases phase <;> cases hnext
    simp only [Declaration.spelled, Declaration.add, dropLast_requests, List.append_assoc,
      List.cons_append]
  | endNode =>
    cases phase <;> cases hnext
    obtain ⟨done, last, hnodes, -⟩ := hphased
    simp only [Declaration.spelled, Declaration.add, hnodes]
    rw [dropLast_requests]
    simp only [List.flatMap_append, List.flatMap_singleton, DeclaredNode.requests,
      List.append_assoc, List.cons_append]
  | numericalTest | categoricalTest | leafScalar | leafVector =>
    cases phase <;> cases hnext
    exact hcurrent (.inl rfl) (.inr rfl) _ (.inl rfl)
  | gain | dataCount | sumHess =>
    cases phase <;> cases hnext
    · exact hcurrent (.inl rfl) (.inl rfl) _ (.inr rfl)
    · exact hcurrent (.inr rfl) (.inr rfl) _ (.inr rfl)
  | commit =>
    cases phase <;> cases hnext
    rfl

private theorem transcript_append (b : Builder) (first second : List Request) :
    b.transcript (first ++ second) = b.transcript first ++ (b.run first).transcript second := by
  induction first generalizing b with
  | nil => rfl
  | cons request first ih =>
    rw [List.cons_append, transcript, transcript, ih, run_cons, List.cons_append]

private theorem run_append (b : Builder) (first second : List Request) :
    b.run (first ++ second) = (b.run first).run second :=
  List.foldl_append

/-- Where no call is refused, the calls so far are the spelling of what they have declared. -/
theorem Stands.run_spelled {start b : Builder} {declaration : Declaration} {phase : BuilderPhase}
    {requests : List Request} (h : Stands start declaration phase b)
    (hall : ∀ entry ∈ b.transcript requests, succeeded entry = true) :
    ∃ last, Stands start (requests.foldl Declaration.add declaration) last (b.run requests) ∧
      (requests.foldl Declaration.add declaration).spelled last =
        declaration.spelled phase ++ requests := by
  induction requests generalizing b declaration phase with
  | nil => exact ⟨phase, h, (List.append_nil _).symm⟩
  | cons request requests ih =>
    obtain ⟨hrequest, hrest⟩ := List.forall_mem_cons.mp hall
    rcases request.call_leads b with ⟨e, he⟩ | ⟨answer, after, hcall, -⟩
    · rw [he] at hrequest
      cases hrequest
    · obtain ⟨next, hnext, hstands⟩ := (h.call request).goal_of_ok hcall
      rw [hcall] at hrest
      obtain ⟨last, hlast, hspelled⟩ := ih hstands hrest
      have hphased : Phased declaration.nodes phase := h.phase_eq ▸ h.follows.phase
      rw [spelled_add hphased hnext, List.append_assoc, List.singleton_append] at hspelled
      rw [run_cons, hcall]
      exact ⟨last, hlast, hspelled⟩

/-- Calls that all go through, wherever a builder stands at the first stage, and take it to the
second one. -/
def Carries (start : Builder) (requests : List Request) (declaration : Declaration)
    (phase : BuilderPhase) (later : Declaration) (next : BuilderPhase) : Prop :=
  ∀ b, Stands start declaration phase b →
    (∀ entry ∈ b.transcript requests, succeeded entry = true) ∧
      Stands start later next (b.run requests)

namespace Carries

variable {start : Builder} {declaration later last : Declaration}
  {phase next final : BuilderPhase} {trees : List (List DeclaredNode)}

theorem nil : Carries start [] declaration phase declaration phase :=
  fun _ h => ⟨List.forall_mem_nil _, h⟩

theorem append {first second : List Request}
    (hfirst : Carries start first declaration phase later next)
    (hsecond : Carries start second later next last final) :
    Carries start (first ++ second) declaration phase last final := by
  intro b h
  obtain ⟨hall, hmiddle⟩ := hfirst b h
  obtain ⟨hothers, hlast⟩ := hsecond _ hmiddle
  rw [transcript_append, run_append, List.forall_mem_append]
  exact ⟨⟨hall, hothers⟩, hlast⟩

theorem single {request : Request}
    (hsucceeds : ∀ b, Stands start declaration phase b → request.call.Succeeds b)
    (hnext : phase.after? request.kind = some next) (hlater : declaration.add request = later) :
    Carries start [request] declaration phase later next := by
  intro b h
  obtain ⟨answer, after, hcall, hstands⟩ := (hsucceeds b h).reaches (h.call request)
  obtain ⟨reached, hreached, hstands⟩ := hstands
  rw [hnext, Option.some.injEq] at hreached
  rw [run_cons, transcript, hcall, hreached, ← hlater]
  exact ⟨List.forall_mem_singleton.mpr rfl, hstands⟩

theorem cons {request : Request} {requests : List Request}
    (hfirst : Carries start [request] declaration phase later next)
    (hrest : Carries start requests later next last final) :
    Carries start (request :: requests) declaration phase last final :=
  hfirst.append hrest

section Node

variable {done : List DeclaredNode} {key : Int32} {calls : List Request}

theorem startNode (hkey : 0 ≤ key) (hnew : key ∉ done.map DeclaredNode.key)
    (hroom : done.length + 1 < 2 ^ 31) : Carries start [.startNode key] ⟨trees, done⟩ .expectNode
      ⟨trees, done ++ [⟨key, []⟩]⟩ .expectDetail := by
  refine single (fun b h => ?_) rfl rfl
  have hdraft := h.follows.draft
  refine startNode_succeeds h.phase_eq hkey ?_ hdraft.columnar ?_
  · rw [← Array.mem_toList_iff, hdraft.keys]
    exact hnew
  · have hmax : Int32.maxValue.toInt = 2147483647 := by decide
    have hpos := hdraft.numNodes
    have hcount := hdraft.count
    rw [Int32.le_iff_toInt_le, Int32.toInt_zero] at hpos
    rw [Int32.lt_iff_toInt_lt, hmax]
    unfold Tree.nodeCount at hcount
    dsimp only at hcount
    omega

private theorem current_succ {declared : DeclaredNode} {b : Builder}
    (h : Stands start ⟨trees, done ++ [declared]⟩ phase b) :
    b.draft.current + 1 = b.draft.tree.nodeCount := by
  have hdraft := h.follows.draft
  rw [hdraft.current_eq, hdraft.count, List.length_append, List.length_singleton]

theorem detail {request : Request} (hrequest : request.isDetail = true)
    (hfits : request.Fits start key) :
    Carries start [request] ⟨trees, done ++ [⟨key, calls⟩]⟩ .expectDetail
      ⟨trees, done ++ [⟨key, calls ++ [request]⟩]⟩ .nodeComplete := by
  refine single (fun b h => ?_) ?_ ?_
  · refine detail_succeeds h.phase_eq (current_succ h) hrequest ?_
    rw [h.follows.draft.current_key]
    exact (h.fits_iff key request).mp hfits
  · cases request <;> first | rfl | cases hrequest
  · rw [Declaration.add_of_call _ (.inl hrequest), List.modifyLast_concat]
    rfl

private theorem statistics {requests : List Request}
    (hall : ∀ request ∈ requests, request.isStatistic = true)
    (hopen : phase = .expectDetail ∨ phase = .nodeComplete) :
    Carries start requests ⟨trees, done ++ [⟨key, calls⟩]⟩ phase
      ⟨trees, done ++ [⟨key, calls ++ requests⟩]⟩ phase := by
  induction requests generalizing calls with
  | nil =>
    rw [List.append_nil]
    exact nil
  | cons request requests ih =>
    obtain ⟨hrequest, hrest⟩ := List.forall_mem_cons.mp hall
    have hone : Carries start [request] ⟨trees, done ++ [⟨key, calls⟩]⟩ phase
        ⟨trees, done ++ [⟨key, calls ++ [request]⟩]⟩ phase := by
      refine single (fun b h => statistic_succeeds ?_ (current_succ h) hrequest) ?_ ?_
      · rw [h.phase_eq]
        exact hopen
      · rcases hopen with rfl | rfl <;> cases request <;> first | rfl | cases hrequest
      · rw [Declaration.add_of_call _ (.inr hrequest), List.modifyLast_concat]
        rfl
    rw [List.append_cons calls]
    exact hone.cons (ih hrest)

theorem node {declared : DeclaredNode} (hspelled : declared.Spelled) (hfits : declared.Fits start)
    (hnew : declared.key ∉ done.map DeclaredNode.key) (hroom : done.length + 1 < 2 ^ 31) :
    Carries start declared.requests ⟨trees, done⟩ .expectNode ⟨trees, done ++ [declared]⟩
      .expectNode := by
  obtain @⟨key, before, after, request, hdetail, hbefore, hafter⟩ := hspelled
  have hrequest := hfits.detail request
    (DeclaredNode.detail?_of_filter (filter_isDetail hdetail hbefore hafter))
  have hend : Carries start [.endNode] ⟨trees, done ++ [⟨key, before ++ request :: after⟩]⟩
      .nodeComplete ⟨trees, done ++ [⟨key, before ++ request :: after⟩]⟩ .expectNode :=
    single (fun b h => endNode_succeeds h.phase_eq) rfl rfl
  have hcalls : Carries start (before ++ request :: after) ⟨trees, done ++ [⟨key, []⟩]⟩
      .expectDetail ⟨trees, done ++ [⟨key, before ++ request :: after⟩]⟩ .nodeComplete := by
    refine (statistics hbefore (.inl rfl)).append ?_
    rw [List.append_cons before, List.nil_append]
    exact (detail hdetail hrequest).cons (statistics hafter (.inr rfl))
  exact (startNode hfits.nonneg hnew hroom).cons (hcalls.append hend)

end Node

private theorem allNodes {rest : List DeclaredNode} (hspelled : ∀ declared ∈ rest, declared.Spelled)
    (hfits : ∀ declared ∈ rest, declared.Fits start) {done : List DeclaredNode}
    (hkeys : ((done ++ rest).map DeclaredNode.key).Nodup)
    (hroom : (done ++ rest).length < 2 ^ 31) :
    Carries start (rest.flatMap DeclaredNode.requests) ⟨trees, done⟩ .expectNode
      ⟨trees, done ++ rest⟩ .expectNode := by
  induction rest generalizing done with
  | nil =>
    rw [List.append_nil]
    exact nil
  | cons declared rest ih =>
    obtain ⟨hfirst, hothers⟩ := List.forall_mem_cons.mp hspelled
    obtain ⟨hfit, hfits⟩ := List.forall_mem_cons.mp hfits
    have hnew : declared.key ∉ done.map DeclaredNode.key := by
      intro hmem
      rw [List.map_append, List.nodup_append] at hkeys
      exact hkeys.2.2 _ hmem _ (List.mem_cons_self ..) rfl
    have hlength : done.length + 1 < 2 ^ 31 := by
      rw [List.length_append, List.length_cons] at hroom
      omega
    rw [List.append_cons] at hkeys hroom ⊢
    exact (node hfirst hfit hnew hlength).append (ih hothers hfits hkeys hroom)

end Carries

/-- Nodes with calls that a builder accepts, up to the end of their tree. -/
structure Spellable (start : Builder) (nodes : List DeclaredNode) : Prop where
  nonempty : nodes ≠ []
  length_lt : nodes.length < 2 ^ 31
  keys : (nodes.map DeclaredNode.key).Nodup
  spelled : ∀ declared ∈ nodes, declared.Spelled
  fits : ∀ declared ∈ nodes, declared.Fits start
  finish : ∀ (trees : List (List DeclaredNode)) (b : Builder),
    Stands start ⟨trees, nodes⟩ .expectNode b → ∃ tree, b.draft.finish = .ok tree

namespace Carries

variable {start : Builder} {closed : List (List DeclaredNode)}

theorem tree {nodes : List DeclaredNode} (h : Spellable start nodes)
    (hroom : closed.length < start.numTree.toNat) :
    Carries start (spellTree nodes) ⟨closed, []⟩ .expectTree ⟨closed ++ [nodes], []⟩
      .expectTree := by
  have hstart : Carries start [.startTree] ⟨closed, []⟩ .expectTree ⟨closed, []⟩ .expectNode := by
    refine single (fun b h => startTree_succeeds h.phase_eq ?_) rfl rfl
    have hlength := (h.vetted.trees (by rw [h.phase_eq]; decide)).length_eq
    rw [h.sound.numTree, ← Array.length_toList, ← hlength]
    exact hroom
  have hend : Carries start [.endTree] ⟨closed, nodes⟩ .expectNode ⟨closed ++ [nodes], []⟩
      .expectTree := by
    refine single (fun b hstands => ?_) rfl rfl
    obtain ⟨tree, hfinish⟩ := h.finish closed b hstands
    refine endTree_succeeds hstands.phase_eq ?_ hfinish
    rw [hstands.follows.draft.count]
    exact List.length_pos_iff.mpr h.nonempty
  have hnodes : Carries start (nodes.flatMap DeclaredNode.requests) ⟨closed, []⟩ .expectNode
      ⟨closed, [] ++ nodes⟩ .expectNode :=
    allNodes h.spelled h.fits (by rw [List.nil_append]; exact h.keys)
      (by rw [List.nil_append]; exact h.length_lt)
  exact hstart.cons (hnodes.append hend)

theorem allTrees {others : List (List DeclaredNode)} (h : ∀ nodes ∈ others, Spellable start nodes)
    (hroom : closed.length + others.length ≤ start.numTree.toNat) :
    Carries start (spelling others) ⟨closed, []⟩ .expectTree ⟨closed ++ others, []⟩
      .expectTree := by
  induction others generalizing closed with
  | nil =>
    rw [List.append_nil]
    exact nil
  | cons nodes others ih =>
    obtain ⟨hfirst, hothers⟩ := List.forall_mem_cons.mp h
    rw [List.length_cons] at hroom
    rw [List.append_cons]
    refine (tree hfirst (by omega)).append (ih hothers ?_)
    rw [List.length_append, List.length_singleton]
    omega

end Carries

end Builder

end Arboretum

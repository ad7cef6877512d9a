import Arboretum.Proofs.Builder.Declared
import Mathlib.Computability.RegularExpressions

/-!
The protocol of a builder as a regular expression. Whatever is asked of a fresh builder, the names
of the calls that go through spell the beginning of a word of it: as many trees as were announced,
each of at least one node, each node with one test or output, and the handing out of the model
behind them.
-/

namespace Arboretum

namespace Protocol

open RegularExpression
open scoped Computability

def statistic : RegularExpression BuilderCall := char .gain + char .dataCount + char .sumHess

def detail : RegularExpression BuilderCall :=
  char .numericalTest + char .categoricalTest + char .leafScalar + char .leafVector

def begun : RegularExpression BuilderCall := char .startNode * star statistic

def detailed : RegularExpression BuilderCall := begun * detail * star statistic

def node : RegularExpression BuilderCall := detailed * char .endNode

def tree : RegularExpression BuilderCall := char .startTree * (node * star node) * char .endTree

/-- A number of trees, and the end of the model. -/
def model (numTree : Nat) : RegularExpression BuilderCall := tree ^ numTree * char .commitModel

/-- The calls are the beginning of a whole model. -/
def Begins (numTree : Nat) (word : List BuilderCall) : Prop :=
  ∃ whole ∈ (model numTree).matches', word <+: whole

example : [.startTree, .startNode, .gain, .leafScalar, .sumHess, .endNode, .endTree, .commitModel] ∈
    (model 1).matches' := by decide

def opened (closed : Nat) : RegularExpression BuilderCall := tree ^ closed * char .startTree

section Words

variable {P Q : RegularExpression BuilderCall} {word : List BuilderCall} {call : BuilderCall}

private theorem snoc (h : word ∈ P.matches') : word ++ [call] ∈ (P * char call).matches' :=
  Language.append_mem_mul h rfl

private theorem star_append {R : RegularExpression BuilderCall} {more : List BuilderCall}
    (h : word ∈ (P * (Q * star R)).matches') (hmore : more ∈ R.matches') :
    word ++ more ∈ (P * (Q * star R)).matches' := by
  have hle : P.matches' * (Q.matches' * R.matches'∗) * R.matches' ≤
      P.matches' * (Q.matches' * R.matches'∗) := by
    rw [mul_assoc, mul_assoc]
    gcongr
    exact kstar_mul_le_kstar
  exact hle (Language.append_mem_mul h hmore)

private theorem star_of_nonempty (h : word ∈ (P * (Q * star Q)).matches') :
    word ∈ (P * star Q).matches' := by
  have hle : P.matches' * (Q.matches' * Q.matches'∗) ≤ P.matches' * Q.matches'∗ := by
    gcongr
    exact mul_kstar_le_kstar
  exact hle h

private theorem star_nil (h : word ∈ P.matches') : word ∈ (P * star Q).matches' := by
  have hnil : word ++ [] ∈ (P * star Q).matches' :=
    Language.append_mem_mul h (Language.nil_mem_kstar _)
  rwa [List.append_nil] at hnil

end Words

section Counting

/-- How often a call stands in every word of an expression, where all words agree on it. -/
def occurrences (call : BuilderCall) : RegularExpression BuilderCall → Option Nat
  | .zero => none
  | .epsilon => some 0
  | .char other => some (if other = call then 1 else 0)
  | .plus P Q => if occurrences call P = occurrences call Q then occurrences call P else none
  | .comp P Q => (occurrences call P).bind fun m => (occurrences call Q).map (m + ·)
  | .star P => if occurrences call P = some 0 then some 0 else none

variable {call : BuilderCall} {P : RegularExpression BuilderCall} {n : Nat}

private theorem count_of_occurrences (h : occurrences call P = some n) {word : List BuilderCall}
    (hword : word ∈ P.matches') : word.count call = n := by
  induction P generalizing n word with
  | zero => cases h
  | epsilon =>
    cases h
    cases hword
    rfl
  | char other =>
    cases h
    cases hword
    rw [List.count_singleton]
    simp only [beq_iff_eq]
  | plus P Q ihP ihQ =>
    rw [occurrences, Option.ite_none_right_eq_some] at h
    obtain ⟨hsame, hP⟩ := h
    rcases hword with hword | hword
    · exact ihP hP hword
    · exact ihQ (hsame ▸ hP) hword
  | comp P Q ihP ihQ =>
    rw [occurrences, Option.bind_eq_some_iff] at h
    obtain ⟨m, hP, h⟩ := h
    obtain ⟨k, hQ, rfl⟩ := Option.map_eq_some_iff.mp h
    obtain ⟨first, hfirst, second, hsecond, rfl⟩ := hword
    rw [List.count_append, ihP hP hfirst, ihQ hQ hsecond]
  | star P ih =>
    rw [occurrences, Option.ite_none_right_eq_some] at h
    obtain ⟨hP, h⟩ := h
    cases h
    obtain ⟨words, rfl, hwords⟩ := Language.mem_kstar.mp hword
    rw [List.count_eq_zero, List.mem_flatten]
    rintro ⟨word, hword, hcall⟩
    exact List.count_eq_zero.mp (ih hP (hwords word hword)) hcall

private theorem occurrences_pow (h : occurrences call P = some n) (times : Nat) :
    occurrences call (P ^ times) = some (times * n) := by
  induction times with
  | zero => rw [Nat.zero_mul]; rfl
  | succ times ih =>
    show occurrences call (comp (P ^ times) P) = _
    rw [occurrences, ih, h, Nat.succ_mul]
    rfl

/-- All words of the protocol have as many trees as were announced, and one end. -/
theorem occurrences_model (numTree : Nat) :
    occurrences .startTree (model numTree) = some numTree ∧
    occurrences .endTree (model numTree) = some numTree ∧
    occurrences .commitModel (model numTree) = some 1 := by
  have hpow : ∀ (call : BuilderCall) (n : Nat), occurrences call tree = some n →
      occurrences call (model numTree) =
        some (numTree * n + if .commitModel = call then 1 else 0) := by
    intro call n h
    show occurrences call (comp (tree ^ numTree) (char .commitModel)) = _
    rw [occurrences, occurrences_pow h]
    rfl
  refine ⟨?_, ?_, ?_⟩
  · rw [hpow .startTree 1 rfl, Nat.mul_one]
    rfl
  · rw [hpow .endTree 1 rfl, Nat.mul_one]
    rfl
  · rw [hpow .commitModel 0 rfl, Nat.mul_zero]
    rfl

end Counting

section Completion

variable {P : RegularExpression BuilderCall} {word : List BuilderCall} {closed numTree : Nat}

private theorem Begins.of_append {more : List BuilderCall} (h : Begins numTree (word ++ more)) :
    Begins numTree word := by
  obtain ⟨whole, hwhole, hword⟩ := h
  exact ⟨whole, hwhole, (List.prefix_append word more).trans hword⟩

def closing : List BuilderCall := [.startNode, .leafScalar, .endNode, .endTree]

private theorem closeTree (h : word ∈ (opened closed * (node * star node)).matches') :
    word ++ [BuilderCall.endTree] ∈ (tree ^ (closed + 1)).matches' := by
  have hclosed : word ++ [BuilderCall.endTree] ∈
      (opened closed * (node * star node) * char BuilderCall.endTree).matches' := snoc h
  have hsame : (opened closed * (node * star node) * char BuilderCall.endTree).matches' =
      (tree ^ (closed + 1)).matches' := by
    simp only [opened, tree, matches'_mul, matches'_pow, pow_succ, mul_assoc]
  exact hsame ▸ hclosed

private theorem closeNode (h : word ∈ (opened closed * star node * detailed).matches') :
    word ++ [BuilderCall.endNode] ∈ (opened closed * (node * star node)).matches' := by
  have hclosed : word ++ [BuilderCall.endNode] ∈
      (opened closed * star node * detailed * char BuilderCall.endNode).matches' := snoc h
  have hsame : (opened closed * star node * detailed * char BuilderCall.endNode).matches' =
      (opened closed * (node * star node)).matches' := by
    calc (opened closed * star node * detailed * char BuilderCall.endNode).matches'
        = (opened closed).matches' * (node.matches'∗ * node.matches') := by
          simp only [node, matches'_mul, matches'_star, mul_assoc]
      _ = (opened closed * (node * star node)).matches' := by
          rw [Language.mul_self_kstar_comm, matches'_mul, matches'_mul, matches'_star]
  exact hsame ▸ hclosed

private theorem addDetail {call : BuilderCall} (hcall : [call] ∈ detail.matches')
    (h : word ∈ (P * begun).matches') : word ++ [call] ∈ (P * detailed).matches' := by
  have hdetail : word ++ [call] ∈ (P * begun * detail * star statistic).matches' :=
    star_nil (Language.append_mem_mul h hcall)
  have hsame : (P * begun * detail * star statistic).matches' = (P * detailed).matches' := by
    simp only [detailed, matches'_mul, mul_assoc]
  exact hsame ▸ hdetail

private theorem opened_closes (h : word ∈ (opened closed * star node).matches') :
    word ++ closing ∈ (tree ^ (closed + 1)).matches' := by
  have hdetailed : [BuilderCall.startNode, .leafScalar] ∈ detailed.matches' := by decide
  have hclosed := closeTree (closeNode (Language.append_mem_mul h hdetailed))
  simpa [closing] using hclosed

private theorem trees_begin (h : word ∈ (tree ^ closed).matches') (hle : closed ≤ numTree) :
    Begins numTree word := by
  obtain ⟨missing, rfl⟩ := Nat.exists_eq_add_of_le hle
  clear hle
  induction missing generalizing word closed with
  | zero => exact ⟨_, snoc h, List.prefix_append ..⟩
  | succ missing ih =>
    have hnext := ih (opened_closes (star_nil (snoc h)))
    rw [Nat.succ_add_eq_add_succ] at hnext
    exact hnext.of_append.of_append

end Completion

end Protocol

def Request.kind : Request → BuilderCall
  | startTree => .startTree
  | endTree => .endTree
  | startNode _ => .startNode
  | endNode => .endNode
  | numericalTest .. => .numericalTest
  | categoricalTest .. => .categoricalTest
  | leafScalar _ => .leafScalar
  | leafVector _ => .leafVector
  | gain _ => .gain
  | dataCount _ => .dataCount
  | sumHess _ => .sumHess
  | commit => .commitModel

/-- Every call asks the protocol before anything else. -/
theorem Request.call_enters (request : Request) :
    ∃ next, request.call = Builder.enter request.kind >>= next := by
  cases request
  case commit => exact ⟨_, bind_assoc ..⟩
  all_goals exact ⟨_, bind_assoc ..⟩

namespace Builder

open Protocol RegularExpression
open Edit.Leads (noModel)

variable {b after : Builder} {word : List BuilderCall}

private theorem refused_of_phase {request : Request} (h : b.phase.after? request.kind = none) :
    request.call.apply b = (.error (.protocol (.unexpectedCall request.kind b.phase)), b) := by
  obtain ⟨next, hnext⟩ := request.call_enters
  rw [hnext, Edit.apply_bind, enter, Edit.apply_bind, Edit.apply_get]
  dsimp only
  rw [h]
  rfl

/-- A call that goes through, as far as the protocol is concerned. -/
inductive Turn (b after : Builder) : BuilderCall → Prop where
  | startTree (hphase : b.phase = .expectTree) (hroom : b.trees.size < b.numTree.toNat)
    (hafter : after.phase = .expectNode) (hsize : after.trees.size = b.trees.size)
    (hempty : after.draft.tree.nodeCount = 0) : Turn b after .startTree
  | endTree (hphase : b.phase = .expectNode) (hnodes : 0 < b.draft.tree.nodeCount)
    (hafter : after.phase = .expectTree) (hsize : after.trees.size = b.trees.size + 1) :
    Turn b after .endTree
  | startNode (hphase : b.phase = .expectNode) (hafter : after.phase = .expectDetail)
    (hsize : after.trees.size = b.trees.size) : Turn b after .startNode
  | endNode (hphase : b.phase = .nodeComplete) (hafter : after.phase = .expectNode)
    (hsize : after.trees.size = b.trees.size) : Turn b after .endNode
  | detail (call : BuilderCall) (hcall : [call] ∈ detail.matches')
    (hphase : b.phase = .expectDetail) (hafter : after.phase = .nodeComplete)
    (hsize : after.trees.size = b.trees.size) : Turn b after call
  | statistic (call : BuilderCall) (hcall : [call] ∈ statistic.matches')
    (hphase : b.phase = .expectDetail ∨ b.phase = .nodeComplete) (hafter : after.phase = b.phase)
    (hsize : after.trees.size = b.trees.size) : Turn b after call
  | commit (hphase : b.phase = .expectTree) (hall : b.trees.size = b.numTree.toNat)
    (hafter : after.phase = .modelComplete) : Turn b after .commitModel

theorem Turn.after?_eq {call : BuilderCall} (h : Turn b after call) :
    b.phase.after? call = some after.phase := by
  cases h with
  | startTree hphase _ hafter _ _ => rw [hphase, hafter]; rfl
  | endTree hphase _ hafter _ => rw [hphase, hafter]; rfl
  | startNode hphase hafter _ => rw [hphase, hafter]; rfl
  | endNode hphase hafter _ => rw [hphase, hafter]; rfl
  | detail _ hcall hphase hafter _ =>
    rw [hphase, hafter]
    rcases hcall with ((hcall | hcall) | hcall) | hcall <;> cases hcall <;> rfl
  | statistic _ hcall hphase hafter _ =>
    rw [hafter]
    rcases hphase with hphase | hphase
    all_goals
      rw [hphase]
      rcases hcall with (hcall | hcall) | hcall <;> cases hcall <;> rfl
  | commit hphase _ hafter => rw [hphase, hafter]; rfl

theorem call_turns (b : Builder) (request : Request) :
    request.call.Leads b fun _ after => after.numTree = b.numTree ∧ Turn b after request.kind := by
  cases request with
  | startTree =>
    refine noModel (startTree_leads b) ?_
    rintro _ ⟨hphase, hroom, rfl⟩
    exact ⟨rfl, .startTree hphase hroom rfl rfl rfl⟩
  | endTree =>
    refine noModel (endTree_leads b) ?_
    rintro _ ⟨hphase, hnodes, tree, -, rfl⟩
    exact ⟨rfl, .endTree hphase hnodes rfl (Array.size_push tree)⟩
  | startNode key =>
    refine noModel (startNode_leads b key) ?_
    rintro _ ⟨hphase, -, -, -, -, rfl⟩
    exact ⟨rfl, .startNode hphase rfl rfl⟩
  | endNode =>
    refine noModel (endNode_leads b) ?_
    rintro _ ⟨hphase, rfl⟩
    exact ⟨rfl, .endNode hphase rfl rfl⟩
  | numericalTest feature threshold defaultLeft comparison left right =>
    refine noModel (numericalTest_leads b feature threshold defaultLeft comparison left right
      fun _ _ => Tree.setNumericalSplit_edited _ _ _ _) ?_
    rintro _ ⟨hphase, -, -, -, _, -, rfl⟩
    exact ⟨rfl, .detail .numericalTest (by decide) hphase rfl rfl⟩
  | categoricalTest feature defaultLeft categories matchGoesRight left right =>
    refine noModel (categoricalTest_leads b feature defaultLeft categories matchGoesRight left right
      fun _ => Tree.setCategoricalSplit_edited _ _ _ _) ?_
    rintro _ ⟨hphase, -, -, _, -, rfl⟩
    exact ⟨rfl, .detail .categoricalTest (by decide) hphase rfl rfl⟩
  | leafScalar value =>
    refine noModel (leafScalar_leads b value fun _ => Tree.setLeaf_edited _) ?_
    rintro _ ⟨hphase, -, _, -, rfl⟩
    exact ⟨rfl, .detail .leafScalar (by decide) hphase rfl rfl⟩
  | leafVector values =>
    refine noModel (leafVector_leads b values fun _ => Tree.setLeafVector_edited _) ?_
    rintro _ ⟨hphase, -, -, _, -, rfl⟩
    exact ⟨rfl, .detail .leafVector (by decide) hphase rfl rfl⟩
  | gain amount =>
    refine noModel (gain_leads b amount (Tree.setGain_edited amount)) ?_
    rintro _ ⟨hopen, _, -, rfl⟩
    exact ⟨rfl, .statistic .gain (by decide) hopen rfl rfl⟩
  | dataCount count =>
    refine noModel (dataCount_leads b count (Tree.setDataCount_edited count)) ?_
    rintro _ ⟨hopen, _, -, rfl⟩
    exact ⟨rfl, .statistic .dataCount (by decide) hopen rfl rfl⟩
  | sumHess sum =>
    refine noModel (sumHess_leads b sum (Tree.setSumHess_edited sum)) ?_
    rintro _ ⟨hopen, _, -, rfl⟩
    exact ⟨rfl, .statistic .sumHess (by decide) hopen rfl rfl⟩
  | commit =>
    refine .bind ((commit_leads b).mono ?_)
    rintro model _ ⟨hphase, hall, -, rfl⟩
    exact ⟨_, _, rfl, rfl, .commit hphase hall rfl⟩

/-- What the accepted calls have spelled, by the phase that they have led to. -/
def Spelled (numTree closed nodes : Nat) (word : List BuilderCall) : BuilderPhase → Prop
  | .expectTree => closed ≤ numTree ∧ word ∈ (tree ^ closed).matches'
  | .expectNode => closed < numTree ∧ word ∈ (opened closed * star node).matches' ∧
    (0 < nodes → word ∈ (opened closed * (node * star node)).matches')
  | .expectDetail => closed < numTree ∧ word ∈ (opened closed * star node * begun).matches'
  | .nodeComplete => closed < numTree ∧ word ∈ (opened closed * star node * detailed).matches'
  | .modelComplete => word ∈ (model numTree).matches'

/-- A builder of so many trees that has got where the calls have led it. -/
structure Conforms (numTree : Nat) (b : Builder) (word : List BuilderCall) : Prop where
  announced : b.numTree.toNat = numTree
  spelled : Spelled numTree b.trees.size b.draft.tree.nodeCount word b.phase

namespace Conforms

variable {numTree : Nat} {call : BuilderCall}

/-- One more call keeps to the protocol. -/
theorem turn (h : Conforms numTree b word) (hnum : after.numTree = b.numTree)
    (hturn : Turn b after call) : Conforms numTree after (word ++ [call]) := by
  obtain ⟨rfl, hspelled⟩ := h
  refine ⟨by rw [hnum], ?_⟩
  cases hturn with
  | startTree hphase hroom hafter hsize hempty =>
    rw [hphase] at hspelled
    obtain ⟨-, hword⟩ := hspelled
    rw [hafter, hsize, hempty]
    refine ⟨hroom, ?_, fun hpos => absurd hpos (Nat.lt_irrefl 0)⟩
    exact star_nil (snoc hword)
  | endTree hphase hnodes hafter hsize =>
    rw [hphase] at hspelled
    obtain ⟨hroom, -, hword⟩ := hspelled
    rw [hafter, hsize]
    exact ⟨hroom, closeTree (hword hnodes)⟩
  | startNode hphase hafter hsize =>
    rw [hphase] at hspelled
    obtain ⟨hroom, hword, -⟩ := hspelled
    rw [hafter, hsize]
    exact ⟨hroom, Language.append_mem_mul hword (by decide : [.startNode] ∈ begun.matches')⟩
  | endNode hphase hafter hsize =>
    rw [hphase] at hspelled
    obtain ⟨hroom, hword⟩ := hspelled
    rw [hafter, hsize]
    exact ⟨hroom, star_of_nonempty (closeNode hword), fun _ => closeNode hword⟩
  | detail call hcall hphase hafter hsize =>
    rw [hphase] at hspelled
    obtain ⟨hroom, hword⟩ := hspelled
    rw [hafter, hsize]
    exact ⟨hroom, addDetail hcall hword⟩
  | statistic call hcall hphase hafter hsize =>
    rw [hafter, hsize]
    rcases hphase with hphase | hphase
    all_goals
      rw [hphase] at hspelled ⊢
      obtain ⟨hroom, hword⟩ := hspelled
      exact ⟨hroom, star_append hword hcall⟩
  | commit hphase hall hafter =>
    rw [hphase] at hspelled
    obtain ⟨-, hword⟩ := hspelled
    rw [hafter]
    rw [hall] at hword
    exact snoc hword

theorem run (h : Conforms numTree b word) (requests : List Request) :
    Conforms numTree (b.run requests) (word ++ (b.accepted requests).map Request.kind) := by
  induction requests generalizing b word with
  | nil => rwa [accepted, transcript, List.filter_nil, List.map_nil, List.map_nil, List.append_nil]
  | cons request requests ih =>
    rcases accepted_cons b request requests with ⟨answer, after, hcall, hkept⟩ | ⟨e, hcall, hkept⟩
    · obtain ⟨hnum, hturn⟩ := (b.call_turns request).goal_of_ok hcall
      have hrest := ih (h.turn hnum hturn)
      rw [run_cons, hcall, hkept, List.map_cons]
      rwa [List.append_assoc, List.singleton_append] at hrest
    · rw [run_cons, hcall, hkept]
      exact ih h

/-- What was spelled can be completed to a model. -/
theorem begins (h : Conforms numTree b word) : Begins numTree word := by
  obtain ⟨-, hspelled⟩ := h
  cases hphase : b.phase with
  | expectTree =>
    rw [hphase] at hspelled
    exact trees_begin hspelled.2 hspelled.1
  | expectNode =>
    rw [hphase] at hspelled
    exact (trees_begin (opened_closes hspelled.2.1) hspelled.1).of_append
  | expectDetail =>
    rw [hphase] at hspelled
    have hdetailed := addDetail (by decide : [.leafScalar] ∈ detail.matches') hspelled.2
    exact (trees_begin (closeTree (closeNode hdetailed)) hspelled.1).of_append.of_append.of_append
  | nodeComplete =>
    rw [hphase] at hspelled
    exact (trees_begin (closeTree (closeNode hspelled.2)) hspelled.1).of_append.of_append
  | modelComplete =>
    rw [hphase] at hspelled
    exact ⟨word, hspelled, List.prefix_rfl⟩

end Conforms

private theorem create_conforms {threshold leaf : ValueType} {metadata : Metadata}
    {routing : TreeRouting}
    {postprocessor : PostprocessorChoice} {baseScores : Array Double} {attributes : Option String}
    {start : Builder}
    (h : create threshold leaf metadata routing postprocessor baseScores attributes = .ok start) :
    Conforms routing.numTree.toNat start [] := by
  have hfresh := create_described h
  refine ⟨by rw [hfresh.numTree], ?_⟩
  rw [hfresh.phase, hfresh.trees]
  exact ⟨Nat.zero_le _, rfl⟩

/-- Nothing leads out of the phase of a model that was handed out. -/
theorem run_spent (h : b.phase = .modelComplete) (requests : List Request) :
    b.run requests = b := by
  induction requests with
  | nil => rfl
  | cons request requests ih =>
    rw [run_cons, refused_of_phase (by rw [h]; cases request <;> rfl), ih]

/-- Whatever is asked of a fresh builder, the calls that go through spell the beginning of a word
of the protocol. So there are at most as many trees as were announced and at most one model; a tree
that is closed has at least one node, each with exactly one test or output; a model is handed out
behind all its trees, and nothing goes through after it. -/
theorem accepted_calls_begin_model {threshold leaf : ValueType} {metadata : Metadata}
    {routing : TreeRouting} {postprocessor : PostprocessorChoice} {baseScores : Array Double}
    {attributes : Option String} {start : Builder}
    (hcreate : create threshold leaf metadata routing postprocessor baseScores attributes =
      .ok start) (requests : List Request) :
    let names := (start.accepted requests).map Request.kind
    Begins routing.numTree.toNat names ∧
    names.count .startTree ≤ routing.numTree.toNat ∧ names.count .commitModel ≤ 1 ∧
    (∀ after, endTree.apply (start.run requests) = (.ok (), after) →
      ∃ closed nodes, names = closed ++ .startTree :: nodes ∧
        closed ∈ (tree ^ (start.run requests).trees.size).matches' ∧
        nodes ∈ (node * star node).matches') ∧
    ∀ handed after, commit.apply (start.run requests) = (.ok handed, after) →
      names.count .endTree = routing.numTree.toNat ∧
      ∀ (later : List Request) (request : Request), request.call.apply (after.run later) =
        (.error (.protocol (.unexpectedCall request.kind .modelComplete)), after) := by
  intro names
  have hconforms : Conforms routing.numTree.toNat (start.run requests) names :=
    (create_conforms hcreate).run requests
  obtain ⟨hstarts, hends, hcommits⟩ := occurrences_model routing.numTree.toNat
  obtain ⟨whole, hwhole, hprefix⟩ := hconforms.begins
  refine ⟨⟨whole, hwhole, hprefix⟩, ?_, ?_, fun after hclosed => ?_, fun handed after hcommit => ?_⟩
  · rw [← count_of_occurrences hstarts hwhole]
    exact hprefix.sublist.count_le _
  · rw [← count_of_occurrences hcommits hwhole]
    exact hprefix.sublist.count_le _
  · obtain ⟨hphase, hpos, -⟩ := (endTree_leads _).goal_of_ok hclosed
    have hspelled := hconforms.spelled
    rw [hphase] at hspelled
    obtain ⟨_, ⟨closed, htrees, _, rfl, rfl⟩, nodes, hnodes, hnames⟩ := hspelled.2.2 hpos
    exact ⟨closed, nodes, hnames.symm.trans (List.append_cons ..).symm, htrees, hnodes⟩
  · obtain ⟨hphase, hall, -, hafter⟩ := (commit_leads _).goal_of_ok hcommit
    have hspelled := hconforms.spelled
    rw [hphase, hall, hconforms.announced] at hspelled
    have hcount := count_of_occurrences hends (snoc hspelled.2)
    rw [List.count_append] at hcount
    refine ⟨hcount, fun later request => ?_⟩
    have hspent : after.phase = .modelComplete := by rw [hafter]
    rw [run_spent hspent, refused_of_phase (by rw [hspent]; cases request <;> rfl), hspent]

/-- The refused calls among these do not count. -/
theorem accepted_calls_begin_model_reversed :
    ∃ (start spent : Builder) (handed : Model), stump 0 0 = .ok start ∧
      commit.apply (start.run reversedCalls.dropLast) = (.ok handed, spent) ∧
      Begins 1 ((start.accepted reversedCalls.dropLast).map Request.kind) ∧
      ((start.accepted reversedCalls.dropLast).map Request.kind).count .endTree = 1 ∧
      Request.startTree.call.apply spent =
        (.error (.protocol (.unexpectedCall .startTree .modelComplete)), spent) := by
  obtain ⟨start, spent, handed, hcreate, hcommit, -⟩ :=
    exists_committed (stump 0 0) reversedCalls.dropLast (fun _ => True) (by decide +kernel)
  obtain ⟨hbegins, -, -, -, hlast⟩ := accepted_calls_begin_model hcreate reversedCalls.dropLast
  obtain ⟨hclosed, hspent⟩ := hlast handed spent hcommit
  exact ⟨start, spent, handed, hcreate, hcommit, hbegins, hclosed, hspent [] .startTree⟩

end Builder

end Arboretum

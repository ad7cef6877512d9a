import Arboretum.Proofs.Builder.Steps
import Arboretum.Proofs.Tree.NodeEdits

/-!
Sequences of calls with their answers. A refused call leaves the whole builder as it was, so the
refused calls of a sequence can be left out: the other calls get the same answers, the models that
they hand out included, and the builder ends up the same.
-/

namespace Arboretum

/-- Make the call, and hand out the model if it commits one. -/
def Request.call : Request → Edit Builder (Option Model)
  | .commit => do return some (← Builder.commit)
  | request => do
    request.perform
    return none

/-- A call that hands out no model leads where it leads without that answer. -/
theorem Edit.Leads.noModel {b : Builder} {edit : Edit Builder Unit} {goal : Unit → Builder → Prop}
    {aim : Builder → Prop} (h : edit.Leads b goal) (haim : ∀ after, goal () after → aim after) :
    (edit >>= fun _ => pure (none : Option Model)).Leads b fun _ after => aim after :=
  .bind (h.mono fun _ after hgoal => ⟨none, after, rfl, haim after hgoal⟩)

/-- A call goes through, or it refuses and changes nothing. -/
theorem Request.call_leads (request : Request) (b : Builder) :
    request.call.Leads b fun _ _ => True := by
  have hperform : ∀ {edit : Edit Builder Unit} {goal : Unit → Builder → Prop},
      edit.Leads b goal → (edit >>= fun _ => pure (none : Option Model)).Leads b fun _ _ => True :=
    fun h => h.noModel fun _ _ => trivial
  cases request with
  | startTree => exact hperform (Builder.startTree_leads b)
  | endTree => exact hperform (Builder.endTree_leads b)
  | startNode key => exact hperform (Builder.startNode_leads b key)
  | endNode => exact hperform (Builder.endNode_leads b)
  | numericalTest feature threshold defaultLeft comparison left right =>
    exact hperform
      (Builder.numericalTest_leads b feature threshold defaultLeft comparison left right
        fun _ _ => Tree.setNumericalSplit_edited _ _ _ _)
  | categoricalTest feature defaultLeft categories matchGoesRight left right =>
    exact hperform
      (Builder.categoricalTest_leads b feature defaultLeft categories matchGoesRight left right
        fun _ => Tree.setCategoricalSplit_edited _ _ _ _)
  | leafScalar value =>
    exact hperform (Builder.leafScalar_leads b value fun _ => Tree.setLeaf_edited _)
  | leafVector values =>
    exact hperform (Builder.leafVector_leads b values fun _ => Tree.setLeafVector_edited _)
  | gain amount => exact hperform (Builder.gain_leads b amount (Tree.setGain_edited amount))
  | dataCount count =>
    exact hperform (Builder.dataCount_leads b count (Tree.setDataCount_edited count))
  | sumHess sum => exact hperform (Builder.sumHess_leads b sum (Tree.setSumHess_edited sum))
  | commit =>
    exact .bind ((Builder.commit_leads b).mono fun model after _ =>
      ⟨some model, after, rfl, trivial⟩)

/-- The model that is handed out aside, both forms of a call do the same. -/
theorem Request.call_apply (request : Request) (b : Builder) :
    (request.perform.apply b).2 = (request.call.apply b).2 := by
  cases request
  case commit =>
    rw [perform, call, Edit.apply_bind, Edit.apply_bind]
    rcases Builder.commit.apply b with ⟨_ | _, _⟩ <;> rfl
  all_goals
    rw [call, Edit.apply_bind]
    · rcases (perform _).apply b with ⟨_ | _, _⟩ <;> rfl
    · exact fun h => nomatch h

namespace Builder

/-- Calls with their answers, each made on what the calls before it have left. -/
def transcript (b : Builder) : List Request → List (Request × Result (Option Model))
  | [] => []
  | request :: requests =>
    (request, (request.call.apply b).1) :: transcript (request.call.apply b).2 requests

def succeeded (entry : Request × Result (Option Model)) : Bool := entry.2.isOk

def accepted (b : Builder) (requests : List Request) : List Request :=
  ((b.transcript requests).filter succeeded).map Prod.fst

/-- One call of a sequence: it goes through and is kept, or it refuses and is left out. -/
theorem accepted_cons (b : Builder) (request : Request) (requests : List Request) :
    (∃ answer after, request.call.apply b = (.ok answer, after) ∧
      b.accepted (request :: requests) = request :: after.accepted requests) ∨
    (∃ e, request.call.apply b = (.error e, b) ∧
      b.accepted (request :: requests) = b.accepted requests) := by
  rcases request.call_leads b with ⟨e, he⟩ | ⟨answer, after, hafter, -⟩
  · refine .inr ⟨e, he, ?_⟩
    rw [accepted, transcript, he]
    rfl
  · refine .inl ⟨answer, after, hafter, ?_⟩
    rw [accepted, transcript, hafter]
    rfl

theorem run_cons (b : Builder) (request : Request) (requests : List Request) :
    b.run (request :: requests) = (request.call.apply b).2.run requests := by
  rw [run, List.foldl_cons, request.call_apply, run]

private theorem transcript_accepted (b : Builder) (requests : List Request) :
    b.transcript (b.accepted requests) = (b.transcript requests).filter succeeded := by
  induction requests generalizing b with
  | nil => rfl
  | cons request requests ih =>
    rcases accepted_cons b request requests with ⟨answer, after, hcall, hkept⟩ | ⟨e, hcall, hkept⟩
    · rw [hkept, transcript, transcript, hcall, ih after]
      rfl
    · rw [hkept, ih b, transcript, hcall]
      rfl

private theorem run_accepted (b : Builder) (requests : List Request) :
    b.run (b.accepted requests) = b.run requests := by
  induction requests generalizing b with
  | nil => rfl
  | cons request requests ih =>
    rcases accepted_cons b request requests with ⟨answer, after, hcall, hkept⟩ | ⟨e, hcall, hkept⟩
    · rw [hkept, run_cons, run_cons, hcall, ih after]
    · rw [hkept, run_cons, hcall, ih b]

/-- A refused call leaves every part of the builder as it was. Without the refused calls of a
sequence the others get the answers that they got with them, and the same builder is left. -/
theorem refused_calls_change_nothing (b : Builder) :
    (∀ (request : Request) (e : Error), (request.call.apply b).1 = .error e →
      (request.call.apply b).2 = b) ∧
    ∀ requests : List Request,
      b.transcript (b.accepted requests) = (b.transcript requests).filter succeeded ∧
      b.run (b.accepted requests) = b.run requests := by
  refine ⟨fun request e he => ?_, fun requests =>
    ⟨transcript_accepted b requests, run_accepted b requests⟩⟩
  rcases request.call_leads b with ⟨_, hrefused⟩ | ⟨answer, after, hafter, -⟩
  · rw [hrefused]
  · rw [hafter] at he
    cases he

def leafBuilder : Builder :=
  run ⟨.double, 1, .scalar, .initial, #[], .empty, .expectTree⟩
    [.startTree, .startNode 7, .leafScalar Score.one, .endNode]

/-- A repeated key is refused and the tree can still be closed and committed. -/
theorem refused_calls_change_nothing_repeated :
    ((Request.startNode 7).call.apply leafBuilder).1 = .error (.structural (.repeatedKey 7)) ∧
    ((Request.startNode 7).call.apply leafBuilder).2 = leafBuilder ∧
    leafBuilder.transcript [.endTree, .commit] =
      (leafBuilder.transcript [.startNode 7, .endTree, .commit]).filter succeeded := by
  have hrefused : ((Request.startNode 7).call.apply leafBuilder).1 =
      .error (.structural (.repeatedKey 7)) := by with_unfolding_all rfl
  obtain ⟨hsame, hothers⟩ := refused_calls_change_nothing leafBuilder
  refine ⟨hrefused, hsame (.startNode 7) _ hrefused, ?_⟩
  rw [← (hothers [.startNode 7, .endTree, .commit]).1]
  with_unfolding_all rfl

end Builder

end Arboretum

import Arboretum.Builder.Basic
import Arboretum.Proofs.Builder.Nodes

/-!
Runs of a builder. Every call either refuses and changes nothing or takes the builder one step on;
what a run keeps up is that all closed trees are trees of complete nodes, and that the open one
lacks at most the node that was declared last.
-/

namespace Arboretum

/-- A call of a builder with its arguments. -/
inductive Request : Type 1 where
  | startTree
  | endTree
  | startNode (key : Int32)
  | endNode
  | numericalTest (feature : Int32) (threshold : Double) (defaultLeft : Bool)
    (comparison : Comparison) (left right : Int32)
  | categoricalTest (feature : Int32) (defaultLeft : Bool) (categories : List UInt32)
    (matchGoesRight : Bool) (left right : Int32)
  | leafScalar (value : Double)
  | leafVector {α : Type} [Numeric α] (values : Array α)
  | gain (amount : Double)
  | dataCount (count : UInt64)
  | sumHess (sum : Double)
  | commit

/-- Make the call. A model that it hands out is left aside. -/
def Request.perform : Request → Edit Builder Unit
  | startTree => Builder.startTree
  | endTree => Builder.endTree
  | startNode key => Builder.startNode key
  | endNode => Builder.endNode
  | numericalTest feature threshold defaultLeft comparison left right =>
    Builder.numericalTest feature threshold defaultLeft comparison left right
  | categoricalTest feature defaultLeft categories matchGoesRight left right =>
    Builder.categoricalTest feature defaultLeft categories matchGoesRight left right
  | leafScalar value => Builder.leafScalar value
  | leafVector values => Builder.leafVector values
  | gain amount => Builder.gain amount
  | dataCount count => Builder.dataCount count
  | sumHess sum => Builder.sumHess sum
  | commit => do let _ ← Builder.commit

namespace Builder

def run (b : Builder) (requests : List Request) : Builder :=
  requests.foldl (fun b request => (request.perform.apply b).2) b

/-- A tree with nodes, all of them complete. -/
structure Finished {T L : Type} (numFeature : Nat) (shape : LeafShape) (tree : Tree T L) :
    Prop where
  valid : tree.validate = .ok ()
  nonempty : 0 < tree.nodeCount
  complete : ∀ nid < tree.nodeCount, tree.NodeComplete numFeature shape nid

def featureCount (b : Builder) : Nat := b.info.numFeature.toInt.toNat

/-- What a builder keeps up since its start. -/
structure Sound (start b : Builder) : Prop where
  info : b.info = start.info
  leafShape : b.leafShape = start.leafShape
  numTree : b.numTree = start.numTree
  trees : ∀ tree ∈ b.trees, Finished start.featureCount start.leafShape tree
  counted : b.draft.keys.size = b.draft.tree.nodeCount
  numNodes : 0 ≤ b.draft.tree.numNodes
  complete : ∀ nid < b.draft.tree.nodeCount, (b.phase = .expectDetail → nid ≠ b.draft.current) →
    b.draft.tree.NodeComplete start.featureCount start.leafShape nid

/-- A call that comes out of turn is refused before anything else. -/
theorem enter_leads {α : Type} {call : BuilderCall} {next : BuilderPhase → Edit Builder α}
    {b : Builder} {goal : α → Builder → Prop}
    (h : ∀ phase, b.phase.after? call = some phase → (next phase).Leads b goal) :
    (enter call >>= next).Leads b goal := by
  refine .check_bind ?_
  rw [enter]
  refine .get_bind ?_
  cases hphase : b.phase.after? call with
  | none => exact .inl ⟨_, rfl⟩
  | some phase => exact .of_eq rfl ⟨rfl, h phase hphase⟩

theorem phase_of_detail {phase next : BuilderPhase} {call : BuilderCall}
    (hcall : call = .numericalTest ∨ call = .categoricalTest ∨ call = .leafScalar ∨
      call = .leafVector) (h : phase.after? call = some next) :
    phase = .expectDetail ∧ next = .nodeComplete := by
  rcases hcall with rfl | rfl | rfl | rfl
  all_goals
    cases phase <;> cases h
    exact ⟨rfl, rfl⟩

theorem phase_of_statistic {phase next : BuilderPhase} {call : BuilderCall}
    (hcall : call = .gain ∨ call = .dataCount ∨ call = .sumHess)
    (h : phase.after? call = some next) : next = phase := by
  rcases hcall with rfl | rfl | rfl
  all_goals
    cases phase <;> cases h <;> rfl

theorem editTree_apply {α : Type} (edit : (p : Precision) → Edit (Tree p.Word p.Word) α)
    (b : Builder) : (editTree edit).apply b =
      (((edit b.precision).apply b.draft.tree).1,
        { b with draft.tree := ((edit b.precision).apply b.draft.tree).2 }) := by
  rw [editTree, Edit.apply_bind, Edit.apply_get]
  dsimp only
  rcases (edit b.precision).apply b.draft.tree with ⟨result, tree⟩
  simp only [Edit.apply_bind, Edit.apply_set, Edit.apply_lift]

/-- Where an edit of the tree leads, the builder follows. -/
theorem editTree_leads {α : Type} {edit : (p : Precision) → Edit (Tree p.Word p.Word) α}
    {b : Builder} {goal : α → Tree b.precision.Word b.precision.Word → Prop}
    (h : (edit b.precision).Leads b.draft.tree goal) :
    (editTree edit).Leads b fun a after =>
      ∃ tree, goal a tree ∧ after = { b with draft.tree := tree } := by
  rw [Edit.Leads, Edit.Refuses, editTree_apply]
  rcases h with ⟨e, he⟩ | ⟨a, tree, ha, htree⟩
  · rw [he]
    exact .inl ⟨e, rfl⟩
  · rw [ha]
    exact .inr ⟨a, _, rfl, tree, htree, rfl⟩

theorem editCurrent_leads {edit : (p : Precision) → Nat → Edit (Tree p.Word p.Word) Unit}
    {b : Builder} {goal : Unit → Tree b.precision.Word b.precision.Word → Prop}
    (h : (edit b.precision b.draft.current).Leads b.draft.tree goal) :
    (editCurrent edit).Leads b fun a after =>
      ∃ tree, goal a tree ∧ after = { b with draft.tree := tree } := by
  rw [editCurrent]
  exact .get_bind (editTree_leads h)

end Builder

end Arboretum

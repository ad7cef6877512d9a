import Arboretum.Proofs.Builder.Transcript

/-!
What a sequence of calls declares, read off the calls alone: tree after tree, the nodes of each one
in order under their keys, and for each node the calls that were made on it.
-/

namespace Arboretum

namespace Request

def isDetail : Request → Bool
  | numericalTest .. | categoricalTest .. | leafScalar _ | leafVector _ => true
  | _ => false

def isStatistic : Request → Bool
  | gain _ | dataCount _ | sumHess _ => true
  | _ => false

/-- The tests for membership. -/
def isCategorical : Request → Bool
  | categoricalTest .. => true
  | _ => false

def childKeys? : Request → Option (Int32 × Int32)
  | numericalTest _ _ _ _ left right | categoricalTest _ _ _ _ left right => some (left, right)
  | _ => none

def gain? : Request → Option Double
  | gain amount => some amount
  | _ => none

def dataCount? : Request → Option UInt64
  | dataCount count => some count
  | _ => none

def sumHess? : Request → Option Double
  | sumHess sum => some sum
  | _ => none

/-- The node that a test or an output describes, where nodes are numbered by their keys. -/
def described {T L : Type} [Numeric T] [Numeric L] (number : Int32 → Int32) : Request → Node T L
  | numericalTest feature threshold defaultLeft comparison left right =>
    { (Node.fresh : Node T L) with
      kind := .numericalTest
      left := number left
      right := number right
      feature := feature.toUInt32
      defaultLeft := defaultLeft
      threshold := Numeric.cast threshold
      comparison := comparison }
  | categoricalTest feature defaultLeft categories matchGoesRight left right =>
    { (Node.fresh : Node T L) with
      kind := .categoricalTest
      left := number left
      right := number right
      feature := feature.toUInt32
      defaultLeft := defaultLeft
      categories := (categories.mergeSort (· ≤ ·)).toArray
      matchGoesRight := matchGoesRight }
  | leafScalar value => { (Node.fresh : Node T L) with leafValue := Numeric.cast value }
  | leafVector values => { (Node.fresh : Node T L) with leafVector := values.map Numeric.cast }
  | _ => Node.fresh

theorem isDetail_of_isStatistic {request : Request} (h : request.isStatistic = true) :
    request.isDetail = false := by
  cases request <;> first | rfl | cases h

end Request

/-- A node of a declaration: its key, and the calls that were made on it. -/
structure DeclaredNode where
  key : Int32
  calls : List Request

namespace DeclaredNode

/-- The call that gave the node its test or its output. -/
def detail? (declared : DeclaredNode) : Option Request := declared.calls.find? Request.isDetail

/-- A node with exactly one test or output. -/
def Complete (declared : DeclaredNode) : Prop :=
  ∃ request, declared.calls.filter Request.isDetail = [request]

def childKeys? (declared : DeclaredNode) : Option (Int32 × Int32) :=
  declared.detail?.bind Request.childKeys?

/-- The last value that the calls gave to a statistic. -/
def last? {α : Type} (value? : Request → Option α) (declared : DeclaredNode) : Option α :=
  (declared.calls.filterMap value?).getLast?

/-- The node that the calls describe. -/
def node {T L : Type} [Numeric T] [Numeric L] (number : Int32 → Int32) (declared : DeclaredNode) :
    Node T L :=
  { declared.detail?.elim Node.fresh (Request.described number) with
    dataCount := declared.last? Request.dataCount?
    sumHess := declared.last? Request.sumHess?
    gain := declared.last? Request.gain? }

def add (declared : DeclaredNode) (request : Request) : DeclaredNode :=
  { declared with calls := declared.calls ++ [request] }

end DeclaredNode

/-- The trees that were closed, and the nodes of the one that is open. -/
structure Declaration where
  trees : List (List DeclaredNode)
  nodes : List DeclaredNode

namespace Declaration

def add (declaration : Declaration) : Request → Declaration
  | .startTree => { declaration with nodes := [] }
  | .endTree => ⟨declaration.trees ++ [declaration.nodes], []⟩
  | .startNode key => { declaration with nodes := declaration.nodes ++ [⟨key, []⟩] }
  | .endNode | .commit => declaration
  | request => { declaration with nodes := declaration.nodes.modifyLast (·.add request) }

theorem add_of_call (declaration : Declaration) {request : Request}
    (h : request.isDetail = true ∨ request.isStatistic = true) : declaration.add request =
      { declaration with nodes := declaration.nodes.modifyLast (·.add request) } := by
  rcases h with h | h <;> cases request <;> first | rfl | cases h

def ofCalls (calls : List Request) : Declaration := calls.foldl add ⟨[], []⟩

end Declaration

/-- The number of a node is the place of its key among the keys of the tree. -/
def numberOf (nodes : List DeclaredNode) (key : Int32) : Int32 :=
  .ofNat ((nodes.map DeclaredNode.key).idxOf key)

/-- A tree that shows what was declared: the nodes in order, each with what its one test or output
and its statistics said, and each test pointing at the nodes with the keys that it named. -/
structure Built {T L : Type} [Numeric T] [Numeric L] (nodes : List DeclaredNode) (tree : Tree T L) :
    Prop where
  count : tree.nodeCount = nodes.length
  keys : (nodes.map DeclaredNode.key).Nodup
  complete : ∀ declared ∈ nodes, declared.Complete
  children : ∀ declared ∈ nodes, ∀ left right, declared.childKeys? = some (left, right) →
    left ∈ nodes.map DeclaredNode.key ∧ right ∈ nodes.map DeclaredNode.key
  categorical : tree.hasCategoricalSplit = true ↔
    ∃ declared ∈ nodes, ∃ request ∈ declared.calls, request.isCategorical
  node : ∀ (i : Nat) (declared : DeclaredNode), nodes[i]? = some declared →
    tree.node? i = some (declared.node (numberOf nodes))

/-- A node of double precision with the numbers of its declaration, bit by bit. -/
structure DeclaredNode.NumbersKept (declared : DeclaredNode) (node : Node Double Double) :
    Prop where
  threshold : ∀ feature threshold defaultLeft comparison left right, declared.detail? =
    some (.numericalTest feature threshold defaultLeft comparison left right) →
      node.threshold = threshold
  leafValue : ∀ value, declared.detail? = some (.leafScalar value) → node.leafValue = value
  leafVector : ∀ values, declared.detail? = some (.leafVector values) → node.leafVector = values

theorem DeclaredNode.numbersKept (declared : DeclaredNode) (number : Int32 → Int32) :
    declared.NumbersKept (declared.node number) := by
  constructor
  · intro feature threshold defaultLeft comparison left right h
    simp [node, h, Request.described]
  · intro value h
    simp [node, h, Request.described]
  · intro values h
    have hcast : (Numeric.cast : Double → Double) = id := funext Numeric.cast_self
    simp [node, h, Request.described, hcast]

namespace DeclaredNode

variable {T L : Type} [Numeric T] [Numeric L] {declared : DeclaredNode} {request : Request}

theorem detail?_of_none (h : declared.calls.filter Request.isDetail = []) :
    declared.detail? = none := by
  rw [detail?, ← List.head?_filter, h]
  rfl

theorem complete_add (h : declared.calls.filter Request.isDetail = [])
    (hrequest : request.isDetail = true) : (declared.add request).Complete := by
  refine ⟨request, ?_⟩
  rw [add, List.filter_append, h, List.filter_cons_of_pos hrequest]
  rfl

theorem filter_add (hrequest : request.isDetail = false) :
    (declared.add request).calls.filter Request.isDetail =
      declared.calls.filter Request.isDetail := by
  rw [add, List.filter_append, List.filter_cons_of_neg (by simp [hrequest]), List.filter_nil,
    List.append_nil]

theorem detail?_add (hrequest : request.isDetail = false) :
    (declared.add request).detail? = declared.detail? := by
  rw [detail?, ← List.head?_filter, filter_add hrequest, List.head?_filter, detail?]

private theorem last?_add_of_none {α : Type} {value? : Request → Option α}
    (h : value? request = none) :
    (declared.add request).last? value? = declared.last? value? := by
  rw [last?, add, List.filterMap_append, List.filterMap_cons_none h, List.filterMap_nil,
    List.append_nil, last?]

private theorem last?_add_of_some {α : Type} {value? : Request → Option α} {value : α}
    (h : value? request = some value) : (declared.add request).last? value? = some value := by
  rw [last?, add, List.filterMap_append, List.filterMap_cons_some h, List.filterMap_nil,
    List.getLast?_concat]

theorem detail?_add_detail (h : declared.calls.filter Request.isDetail = [])
    (hrequest : request.isDetail = true) : (declared.add request).detail? = some request := by
  rw [detail?, add, List.find?_append, ← detail?, detail?_of_none h, Option.none_or,
    List.find?_cons_of_pos hrequest]

theorem node_add_detail (number : Int32 → Int32)
    (h : declared.calls.filter Request.isDetail = []) (hrequest : request.isDetail = true) :
    ((declared.add request).node number : Node T L) = { (request.described number : Node T L) with
      dataCount := declared.last? Request.dataCount?
      sumHess := declared.last? Request.sumHess?
      gain := declared.last? Request.gain? } := by
  have hgain : request.gain? = none := by cases request <;> first | rfl | cases hrequest
  have hcount : request.dataCount? = none := by cases request <;> first | rfl | cases hrequest
  have hsum : request.sumHess? = none := by cases request <;> first | rfl | cases hrequest
  rw [node, detail?_add_detail h hrequest, last?_add_of_none hgain, last?_add_of_none hcount,
    last?_add_of_none hsum]
  rfl

theorem node_add_gain (number : Int32 → Int32) (amount : Double) :
    ((declared.add (.gain amount)).node number : Node T L) =
      { (declared.node number : Node T L) with gain := some amount } := by
  rw [node, detail?_add rfl, last?_add_of_none rfl, last?_add_of_none rfl, last?_add_of_some rfl]
  rfl

theorem node_add_dataCount (number : Int32 → Int32) (count : UInt64) :
    ((declared.add (.dataCount count)).node number : Node T L) =
      { (declared.node number : Node T L) with dataCount := some count } := by
  rw [node, detail?_add rfl, last?_add_of_some rfl, last?_add_of_none rfl, last?_add_of_none rfl]
  rfl

theorem node_add_sumHess (number : Int32 → Int32) (sum : Double) :
    ((declared.add (.sumHess sum)).node number : Node T L) =
      { (declared.node number : Node T L) with sumHess := some sum } := by
  rw [node, detail?_add rfl, last?_add_of_none rfl, last?_add_of_some rfl, last?_add_of_none rfl]
  rfl

/-- Only the children of a test depend on how nodes are numbered. -/
theorem node_of_childKeys? {left right : Int32} (h : declared.childKeys? = some (left, right))
    (number other : Int32 → Int32) : (declared.node number : Node T L) =
      { (declared.node other : Node T L) with left := number left, right := number right } := by
  rw [childKeys?] at h
  obtain ⟨request, hrequest, hkeys⟩ := Option.bind_eq_some_iff.mp h
  rw [node, node, hrequest]
  cases request <;> cases hkeys <;> rfl

theorem node_of_no_childKeys? (h : declared.childKeys? = none) (number other : Int32 → Int32) :
    (declared.node number : Node T L) = declared.node other := by
  rw [node, node]
  rw [childKeys?] at h
  cases hdetail : declared.detail? with
  | none => rfl
  | some request =>
    rw [hdetail, Option.bind_some] at h
    cases request <;> first | rfl | cases h

end DeclaredNode

end Arboretum

import Arboretum.Encoding.Field
import Arboretum.Encoding.Source
import Arboretum.Proofs.Encoding.Elements
import Mathlib.Logic.Relation

/-!
The reader of models, on any source that gives back the fields which it starts with. The reader asks
for the fields in the order in which they stand in the list of a model, so it returns the model, and
what stops it is the first tree that is none.
-/

namespace Arboretum

/-- A source of fields that returns what it starts with. -/
class FaithfulSource (σ : Type) [FieldSource σ] where
  /-- The source starts with the field and goes on with the other source. -/
  Starts : Field → σ → σ → Prop
  scalar {α : Type} [Element α] [LawfulElement α] {value : α} {source rest : σ} (name : String) :
    Starts (.scalar value) source rest → (FieldSource.scalar name).run source = .ok (value, rest)
  column {α : Type} [Element α] [LawfulElement α] {values : Array α} {source rest : σ}
    (name : String) :
    Starts (.column values) source rest → (FieldSource.column name).run source = .ok (values, rest)
  text {value : String} {source rest : σ} (name : String) :
    Starts (.text value) source rest → (FieldSource.text name).run source = .ok (value, rest)

namespace FieldSource

section Extents

variable {σ β γ : Type}

/-- The reader reads what lies between two sources that the extent relates, and ends in the
result. -/
def Reads (reader : StateT σ Result β) (extent : σ → σ → Prop) (result : Result β) : Prop :=
  ∀ source rest, extent source rest →
    reader.run source = result.map fun value => (value, rest)

namespace Reads

variable {extent : σ → σ → Prop}

theorem bind {reader : StateT σ Result β} {next : β → StateT σ Result γ} {first : Result β}
    {then_ : β → Result γ} {more : σ → σ → Prop} (hfirst : Reads reader extent first)
    (hnext : ∀ value, Reads (next value) more (then_ value)) :
    Reads (reader >>= next) (Relation.Comp extent more) (first >>= then_) := by
  rintro source rest ⟨middle, hextent, hmore⟩
  rw [StateT.run_bind, hfirst source middle hextent]
  cases first with
  | error e => rfl
  | ok value => exact hnext value middle rest hmore

theorem check {passed : Result β} {value : β} {next : β → StateT σ Result γ} {result : Result γ}
    (hpassed : passed = .ok value) (h : Reads (next value) extent result) :
    Reads ((liftM passed : StateT σ Result β) >>= next) extent result := by
  intro source rest hextent
  rw [hpassed]
  exact h source rest hextent

theorem map {reader : StateT σ Result β} {read : Result β} (h : Reads reader extent read)
    (f : β → γ) : Reads (reader >>= fun value => pure (f value)) extent (read.map f) := by
  intro source rest hextent
  rw [StateT.run_bind, h source rest hextent]
  cases read <;> rfl

theorem finish (checked : Result β) (f : β → γ) :
    Reads ((liftM checked : StateT σ Result β) >>= fun value => pure (f value)) Eq
      (checked.map f) := by
  rintro source rest rfl
  cases checked <;> rfl

end Reads

variable [FieldSource σ]

/-- As many unknown fields as the counter says, and behind them what the extent relates. -/
def Behind (count : Int32) (extent : σ → σ → Prop) (source rest : σ) : Prop :=
  0 ≤ count ∧ ∃ middle, (skipMany count.toInt.toNat).run source = .ok ((), middle) ∧
    extent middle rest

private theorem behind_zero {extent : σ → σ → Prop} {source rest : σ} (h : extent source rest) :
    Behind 0 extent source rest :=
  ⟨Int32.le_refl 0, source, rfl, h⟩

theorem Reads.skip {slot : String} {count : Int32} {next : Unit → StateT σ Result γ}
    {extent : σ → σ → Prop} {result : Result γ} (h : Reads (next ()) extent result) :
    Reads (skipOptional slot count >>= next) (Behind count extent) result := by
  rintro source rest ⟨hcount, middle, hskipped, hextent⟩
  have hnonneg : ¬ count < 0 := Int32.not_lt.mpr hcount
  rw [StateT.run_bind, skipOptional, if_neg hnonneg, hskipped]
  exact h middle rest hextent

end Extents

variable {σ : Type} [FieldSource σ] [FaithfulSource σ] {β γ : Type}

/-- The source starts with the fields, one after another. -/
def Holds : List Field → σ → σ → Prop
  | [], source, rest => source = rest
  | field :: fields, source, rest =>
    ∃ next, FaithfulSource.Starts field source next ∧ Holds fields next rest

private theorem holds_append {fields more : List Field} {source rest : σ} :
    Holds (fields ++ more) source rest ↔
      ∃ next, Holds fields source next ∧ Holds more next rest := by
  induction fields generalizing source with
  | nil =>
    constructor
    · intro h
      exact ⟨source, rfl, h⟩
    · rintro ⟨next, rfl, h⟩
      exact h
  | cons field fields ih =>
    rw [List.cons_append]
    constructor
    · rintro ⟨first, hfirst, h⟩
      obtain ⟨next, hfields, hmore⟩ := ih.mp h
      exact ⟨next, ⟨first, hfirst, hfields⟩, hmore⟩
    · rintro ⟨next, ⟨first, hfirst, hfields⟩, hmore⟩
      exact ⟨first, hfirst, ih.mpr ⟨next, hfields, hmore⟩⟩

/-- Where a source starts with the fields, the reader reads all of them and ends in the result. -/
def Yields (reader : StateT σ Result β) (fields : List Field) (result : Result β) : Prop :=
  ∀ source rest, Holds fields source rest →
    reader.run source = result.map fun value => (value, rest)

/-- Fields, and behind them what the extent relates. -/
def Before (fields : List Field) (extent : σ → σ → Prop) (source rest : σ) : Prop :=
  ∃ middle, Holds fields source middle ∧ extent middle rest

namespace Reads

variable {fields : List Field} {extent : σ → σ → Prop} {result : Result γ}

theorem scalar {α : Type} [Element α] [LawfulElement α] {name : String} {value : α}
    {next : α → StateT σ Result γ} (h : Reads (next value) (Before fields extent) result) :
    Reads (FieldSource.scalar name >>= next) (Before (.scalar value :: fields) extent) result := by
  rintro source rest ⟨middle, ⟨first, hfield, hfields⟩, hextent⟩
  rw [StateT.run_bind, FaithfulSource.scalar name hfield]
  exact h first rest ⟨middle, hfields, hextent⟩

theorem column {α : Type} [Element α] [LawfulElement α] {name : String} {values : Array α}
    {next : Array α → StateT σ Result γ}
    (h : Reads (next values) (Before fields extent) result) :
    Reads (FieldSource.column name >>= next) (Before (.column values :: fields) extent) result := by
  rintro source rest ⟨middle, ⟨first, hfield, hfields⟩, hextent⟩
  rw [StateT.run_bind, FaithfulSource.column name hfield]
  exact h first rest ⟨middle, hfields, hextent⟩

theorem text {name value : String} {next : String → StateT σ Result γ}
    (h : Reads (next value) (Before fields extent) result) :
    Reads (FieldSource.text name >>= next) (Before (.text value :: fields) extent) result := by
  rintro source rest ⟨middle, ⟨first, hfield, hfields⟩, hextent⟩
  rw [StateT.run_bind, FaithfulSource.text name hfield]
  exact h first rest ⟨middle, hfields, hextent⟩

theorem last {reader : StateT σ Result γ} (h : Reads reader extent result) :
    Reads reader (Before [] extent) result := by
  rintro source rest ⟨_, rfl, hextent⟩
  exact h source rest hextent

end Reads

end FieldSource

def Tree.Plain {T L : Type} (tree : Tree T L) : Prop :=
  tree.treeOptionalFields = 0 ∧ tree.nodeOptionalFields = 0

namespace Tree

variable {T L : Type} [Element T] [Element L]

def ownFields (tree : Tree T L) : List Field := tree.fields.take 24

def nodeFields (tree : Tree T L) : List Field := tree.fields.drop 24

theorem fields_eq (tree : Tree T L) : tree.fields = tree.ownFields ++ tree.nodeFields :=
  (List.take_append_drop 24 tree.fields).symm

end Tree

namespace FieldSource

variable {σ : Type} [FieldSource σ] [FaithfulSource σ]

section

variable {T L : Type} [Element T] [Element L]

/-- A source starts with a tree: its own fields, the unknown fields that it announces, and the same
for its nodes. -/
def TreeExtent (tree : Tree T L) : σ → σ → Prop :=
  Before tree.ownFields (Behind tree.treeOptionalFields
    (Before tree.nodeFields (Behind tree.nodeOptionalFields Eq)))

def TreesExtent : List (Tree T L) → σ → σ → Prop
  | [] => Eq
  | tree :: trees => Relation.Comp (TreeExtent tree) (TreesExtent trees)

variable [LawfulElement T] [LawfulElement L]

theorem tree_reads (tree : Tree T L) :
    Reads (FieldSource.tree : StateT σ Result (Tree T L)) (TreeExtent tree)
      (tree.validate.map fun _ => tree) := by
  rw [FieldSource.tree]
  refine .scalar <| .scalar <| .column <| .column <| .column <| .column <| .column <| .column <|
    .column <| .column <| .column <| .column <| .column <| .column <| .column <| .column <|
    .column <| .column <| .column <| .column <| .column <| .column <| .column <| ?_
  refine .scalar <| .last <| .skip <| .scalar <| .last <| .skip ?_
  exact .finish tree.validate fun _ => tree

theorem trees_reads (trees : List (Tree T L)) (found : Array (Tree T L)) :
    Reads (FieldSource.trees trees.length found : StateT σ Result (Array (Tree T L)))
      (TreesExtent trees) ((trees.forM Tree.validate).map fun _ => found ++ trees.toArray) := by
  induction trees generalizing found with
  | nil =>
    rintro source rest rfl
    change Except.ok (found, source) = .ok (found ++ #[], source)
    rw [Array.append_empty]
  | cons tree trees ih =>
    have hresult : ((tree :: trees).forM Tree.validate).map
          (fun _ => found ++ (tree :: trees).toArray) =
        (tree.validate.map fun _ => tree) >>= fun next =>
          (trees.forM Tree.validate).map fun _ => found.push next ++ trees.toArray := by
      rw [List.forM_eq_forM, List.forM_cons, ← List.push_append_toArray]
      cases tree.validate <;> rfl
    rw [hresult]
    exact (tree_reads tree).bind fun next => ih (found.push next)

end

private theorem ofTypes_pairing (p : Pairing) :
    Pairing.ofTypes p.thresholdType p.leafType = .ok p := by
  obtain ⟨precision, integerLeaves⟩ := p
  cases precision <;> cases integerLeaves <;> rfl

/-- A source starts with a model: the fields of its header, the unknown fields that it announces,
and its trees. -/
def ModelExtent (model : Model) : σ → σ → Prop :=
  Before model.headerFields (Behind model.optionalFields (TreesExtent model.trees.toList))

/-- Reading a model gives it back if all its trees pass their check, and stops at the first one that
does not. -/
theorem model_reads {model : Model} (hversion : model.version.check = .ok ())
    (hsize : model.numTree < UInt64.size) :
    Reads (FieldSource.model : StateT σ Result Model) (ModelExtent model)
      ((model.trees.toList.forM Tree.validate).map fun _ => model) := by
  have hnum : (UInt64.ofNat model.numTree).toNat = model.trees.toList.length := by
    rw [UInt64.toNat_ofNat_of_lt' hsize, Array.length_toList]
    rfl
  rw [FieldSource.model]
  refine .scalar <| .scalar <| .scalar <| .check hversion <| .scalar <| .scalar <|
    .check (ofTypes_pairing _) <| .scalar <| .scalar <| .scalar <| .scalar <| .scalar <| .column <|
    .column <| .column <| .column <| .text <| .scalar <| .scalar <| .column <| .text <| .scalar <|
    .last <| .skip ?_
  rw [hnum]
  have hread := (trees_reads (σ := σ) model.trees.toList #[]).map fun trees => { model with trees }
  have hresult : ((model.trees.toList.forM Tree.validate).map
      fun _ => (#[] : Array _) ++ model.trees.toList.toArray).map
        (fun trees => { model with trees }) =
      (model.trees.toList.forM Tree.validate).map fun _ => model := by
    cases model.trees.toList.forM Tree.validate with
    | error e => rfl
    | ok _ => simp [Except.map]
  rw [← hresult]
  exact hread

theorem treesExtent_of_holds {T L : Type} [Element T] [Element L] {trees : List (Tree T L)}
    (hplain : ∀ tree ∈ trees, tree.Plain) {source rest : σ}
    (h : Holds (trees.flatMap Tree.fields) source rest) : TreesExtent trees source rest := by
  induction trees generalizing source with
  | nil => exact h
  | cons tree trees ih =>
    obtain ⟨⟨htree, hnode⟩, hothers⟩ := List.forall_mem_cons.mp hplain
    obtain ⟨behind, hfields, h⟩ := holds_append.mp h
    rw [tree.fields_eq] at hfields
    obtain ⟨middle, hown, hnodes⟩ := holds_append.mp hfields
    refine ⟨behind, ⟨middle, hown, ?_⟩, ih hothers h⟩
    rw [htree]
    refine behind_zero ⟨behind, hnodes, ?_⟩
    rw [hnode]
    exact behind_zero rfl

theorem model_yields {model : Model} (hversion : model.version.check = .ok ())
    (hsize : model.numTree < UInt64.size) (hcount : model.optionalFields = 0)
    (hplain : ∀ tree ∈ model.trees, tree.Plain) :
    Yields (FieldSource.model : StateT σ Result Model) model.fields
      ((model.trees.toList.forM Tree.validate).map fun _ => model) := by
  intro source rest h
  obtain ⟨middle, hheader, htrees⟩ := holds_append.mp h
  refine model_reads hversion hsize source rest ⟨middle, hheader, ?_⟩
  rw [hcount]
  exact behind_zero <| treesExtent_of_holds
    (fun tree htree => hplain tree (Array.mem_toList_iff.mp htree)) htrees

end FieldSource

end Arboretum

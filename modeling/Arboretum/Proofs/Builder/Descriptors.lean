import Arboretum.Builder.Basic
import Arboretum.Proofs.Result

/-!
What the descriptors of a model settle. A fresh builder has them on record as they are, and has
checked them against each other.
-/

namespace Arboretum

/-- The metadata that descriptors describe. A parameter is one where the post-processing function
does not use it or no value is given. -/
structure Documented (metadata : Metadata) (routing : TreeRouting) (choice : PostprocessorChoice)
    (baseScores : Array Double) (attributes : Option String) (info : ModelInfo) : Prop where
  numFeature : info.numFeature = metadata.numFeature
  task : info.task = metadata.task
  averageTreeOutput : info.averageTreeOutput = metadata.averageTreeOutput
  numTarget : info.numTarget = metadata.numTarget
  numClass : info.numClass = metadata.numClass
  leafVectorShape : info.leafVectorShape =
    #[metadata.leafShape.targets, metadata.leafShape.classes]
  targetId : info.targetId = routing.targetId
  classId : info.classId = routing.classId
  postprocessor : info.postprocessor = choice.name
  parameters : ∃ kind params, PostprocessorKind.ofName choice.name = .ok kind ∧
    choice.params = .ok params ∧
    info.sigmoidAlpha =
      (if kind.usesSigmoidAlpha then params.sigmoidAlpha else none).getD Score.one ∧
    info.ratioC = (if kind.usesRatioC then params.ratioC else none).getD Score.one
  baseScores : info.baseScores = baseScores
  attributes : info.attributes = attributes.getD noAttributes

namespace Builder

/-- What the descriptors of a fresh builder promise. -/
structure Described (threshold leaf : ValueType) (metadata : Metadata) (routing : TreeRouting)
    (choice : PostprocessorChoice) (baseScores : Array Double) (attributes : Option String)
    (start : Builder) : Prop
    extends Documented metadata routing choice baseScores attributes start.info where
  metadata_ok : metadata.validate = .ok ()
  routing_ok : routing.validate = .ok ()
  routing_fits : routing.validateAgainst metadata = .ok ()
  baseScores_size : start.info.baseScores.size =
    metadata.numTarget.toNat * metadata.maxNumClass.toNat
  precision : precisionOf threshold leaf = .ok start.precision
  numTree : start.numTree = routing.numTree
  leafShape : start.leafShape = metadata.leafShape
  trees : start.trees = #[]
  draft : start.draft = .empty
  phase : start.phase = .expectTree

variable {threshold leaf : ValueType} {metadata : Metadata} {routing : TreeRouting}
  {choice : PostprocessorChoice} {baseScores : Array Double} {attributes : Option String}
  {start : Builder}

theorem create_described
    (h : create threshold leaf metadata routing choice baseScores attributes = .ok start) :
    Described threshold leaf metadata routing choice baseScores attributes start := by
  have hused : ∀ (used : Bool) (value : Option Single),
      (if used then value.getD Score.one else Score.one) =
        (if used then value else none).getD Score.one := by
    intro used value
    cases used <;> rfl
  rw [create] at h
  obtain ⟨precision, hprecision, h⟩ := bind_eq_ok.mp h
  simp only [then_eq_ok, require_eq_ok] at h
  obtain ⟨hmetadata, hrouting, hfits, hscores, h⟩ := h
  obtain ⟨kind, hkind, h⟩ := bind_eq_ok.mp h
  obtain ⟨params, hparams, h⟩ := bind_eq_ok.mp h
  cases attributes with
  | none =>
    cases h
    exact ⟨⟨rfl, rfl, rfl, rfl, rfl, rfl, rfl, rfl, rfl,
      ⟨kind, params, hkind, hparams, hused _ _, hused _ _⟩, rfl, rfl⟩, hmetadata, hrouting, hfits,
      hscores, hprecision, rfl, rfl, rfl, rfl, rfl⟩
  | some text =>
    obtain ⟨-, h⟩ := then_eq_ok.mp h
    cases h
    exact ⟨⟨rfl, rfl, rfl, rfl, rfl, rfl, rfl, rfl, rfl,
      ⟨kind, params, hkind, hparams, hused _ _, hused _ _⟩, rfl, rfl⟩, hmetadata, hrouting, hfits,
      hscores, hprecision, rfl, rfl, rfl, rfl, rfl⟩

/-- Thresholds and leaves of a builder have one type. -/
theorem precisionOf_eq_ok {precision : Precision} (h : precisionOf threshold leaf = .ok precision) :
    precision.valueType = threshold ∧ precision.valueType = leaf := by
  unfold precisionOf at h
  obtain ⟨hsame, h⟩ := then_eq_ok.mp h
  obtain rfl := require_eq_ok.mp hsame
  cases leaf <;> cases h <;> exact ⟨rfl, rfl⟩

end Builder

end Arboretum

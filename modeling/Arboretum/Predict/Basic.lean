import Arboretum.Postprocessor
import Arboretum.Predict.Check
import Arboretum.Predict.RowBlocks
import Arboretum.Predict.Routing
import Arboretum.Tree.Walk

/-!
Prediction. Every row is scored by itself: each tree leads it to a leaf, the outputs of the leaves
are added to the scores they are routed to, and averages, base scores and post-processing follow.
Rows are computed in blocks; with several targets they are computed row by row first and then
brought into the order target, row, class.

A look-up that finds nothing makes the computation of its row fail. `Model.check` comes first and
rules that out.
-/

namespace Arboretum

namespace Predict

variable {T L α : Type} [Numeric T] [Numeric L] [Score α]

def addTo? (scores : Array α) (score : Nat) (output : L) : Option (Array α) := do
  return scores.setIfInBounds score (Score.add (← scores[score]?) (Numeric.cast output))

/-- Add the output of a leaf to the scores that its tree feeds. -/
def addOutput? (layout : ScoreLayout) (target class_ : Int32) (node : Node T L)
    (scores : Array α) : Option (Array α) := do
  if node.hasLeafVector then
    (← layout.slots? target class_).foldlM
      (fun scores slot => do addTo? scores slot.score (← node.leafVector[slot.entry]?)) scores
  else
    let t ← position? target
    let c ← position? class_
    addTo? scores (t * layout.maxNumClass + c) node.leafValue

def addTree? (layout : ScoreLayout) (info : ModelInfo) (row : Array α) (scores : Array α)
    (tree : Tree T L) (index : Nat) : Option (Array α) := do
  let leaf ← tree.leafOf? row
  addOutput? layout (← info.targetId[index]?) (← info.classId[index]?) (← tree.node? leaf) scores

def countSlot? (counts : Array Nat) (slot : Slot) : Option (Array Nat) := do
  return counts.setIfInBounds slot.score ((← counts[slot.score]?) + 1)

/-- How many trees feed each score. -/
def treeCounts? (layout : ScoreLayout) (info : ModelInfo) (numTree : Nat) : Option (Array Nat) :=
  (List.range numTree).foldlM
    (fun counts tree => do
      let slots ← layout.slots? (← info.targetId[tree]?) (← info.classId[tree]?)
      slots.foldlM countSlot? counts)
    (Array.replicate layout.stride 0)

/-- The average over the trees that feed a score, and the sum itself where there is none or no
average is asked for. -/
def averaged (sum : α) : Option Nat → α
  | some (count + 1) => Score.div sum (FloatWord.ofNat (count + 1))
  | _ => sum

/-- One score from its sum: the average if there is one to take, plus the base score. -/
def finishScore? (info : ModelInfo) (counts : Option (Array Nat)) (scores : Array α)
    (slot : Nat) : Option α := do
  let sum ← scores[slot]?
  let base ← info.baseScores[slot]?
  let count ← counts.mapM (·[slot]?)
  return Score.add (averaged sum count) (Numeric.cast base)

def finishTarget? (layout : ScoreLayout) (info : ModelInfo) (counts : Option (Array Nat))
    (post : Option Postprocessor) (scores : Array α) (count : UInt32) (target : Nat) :
    Option (Array α) := do
  let first := target * layout.maxNumClass
  let finished ← (List.range count.toNat).mapM fun c =>
    finishScore? info counts scores (first + c)
  let finished := match post with
    | none => finished
    | some post => post.apply finished
  return finished.zipIdx.foldl
    (fun scores (score, c) => scores.setIfInBounds (first + c) score) scores

/-- The finished scores of one row. The room of classes that a target does not have is not
finished: it holds whatever trees that feed one class of every target have added there. -/
def scoreRow? (info : ModelInfo) (trees : Array (Tree T L)) (counts : Option (Array Nat))
    (post : Option Postprocessor) (row : Array α) : Option (Array α) := do
  let layout := ScoreLayout.ofInfo info
  let sums ← trees.toList.zipIdx.foldlM
    (fun scores (tree, index) => addTree? layout info row scores tree index)
    (Array.replicate layout.stride Numeric.zero)
  layout.targets.foldlM
    (fun scores (count, target) => finishTarget? layout info counts post scores count target) sums

def leafRow? (trees : Array (Tree T L)) (row : Array α) : Option (Array α) :=
  trees.mapM fun tree => do return Numeric.cast (UInt32.ofNat (← tree.leafOf? row))

/-- The output of one tree for a row, filled up with zeros to the length of a leaf output. -/
def treeOutput? (leafSize : Nat) (row : Array α) (tree : Tree T L) : Option (Array α) := do
  let node ← tree.node? (← tree.leafOf? row)
  let outputs := if node.hasLeafVector then node.leafVector else #[node.leafValue]
  if leafSize = 0 then none
  else
    let outputs := (outputs.take leafSize).map Numeric.cast
    return outputs ++ Array.replicate (leafSize - outputs.size) Numeric.zero

def outputsRow? (leafSize : Nat) (trees : Array (Tree T L)) (row : Array α) : Option (Array α) := do
  return (← trees.mapM (treeOutput? leafSize row)).flatten

def inputRow? (input : Array α) (numFeature row : Nat) : Option (Array α) :=
  let first := row * numFeature
  if first + numFeature ≤ input.size then some (input.extract first (first + numFeature)) else none

/-- What is computed for a row: how many entries the answer has, and which. -/
structure RowKernel (α : Type) where
  stride : Nat
  entries? : Array α → Option (Array α)

def leafSize (info : ModelInfo) : Nat :=
  (info.leafVectorShape.toList.map UInt32.toNat).foldr (· * ·) 1

/-- The computation for each row that a kind of prediction asks for. -/
def kernel? (model : Model) (kind : PredictKind) (post : Option Postprocessor) :
    Option (RowKernel α) := do
  let info := model.info
  match kind with
  | .processed | .raw =>
    let layout := ScoreLayout.ofInfo info
    let counts ←
      if info.averageTreeOutput then (treeCounts? layout info model.numTree).map some else some none
    return ⟨layout.stride, scoreRow? info model.trees counts post⟩
  | .leafId => return ⟨model.numTree, leafRow? model.trees⟩
  | .perTree =>
    return ⟨model.numTree * leafSize info, outputsRow? (leafSize info) model.trees⟩

/-- A look-up that has to find something. -/
def found {β : Type} : Option β → Result β
  | some b => .ok b
  | none => .error (.structural .accessOutOfRange)

/-- Fill the rows of a block, whose entries are replaced as a whole. -/
def fillRows (input : Array α) (numFeature : Nat) (kernel : RowKernel α) (firstRow : Nat)
    (block : Array α) : Result (Array α) := do
  let rows ← (List.range (block.size / kernel.stride)).mapM fun offset =>
    found ((inputRow? input numFeature (firstRow + offset)).bind kernel.entries?)
  return rows.toArray.flatten

/-- The scores of several targets, from the order row, target, class into target, row, class. -/
def transpose? (numRow numTarget numClass : Nat) (byRow : Array α) : Option (Array α) := do
  let entries ← (List.range (numTarget * numRow * numClass)).mapM fun i =>
    let row := i / numClass % numRow
    let target := i / numClass / numRow
    byRow[(row * numTarget + target) * numClass + i % numClass]?
  return entries.toArray

def byRow (machine : Machine) (threads : Nat) (input : Array α) (numFeature : Nat)
    (kernel : RowKernel α) : Edit (Array α) Unit :=
  machine.fillRowBlocks threads kernel.stride (fillRows input numFeature kernel)

/-- Fill a buffer target by target, from scores that are computed row by row beside it. -/
def byTarget (machine : Machine) (threads : Nat) (layout : ScoreLayout) (input : Array α)
    (numFeature numRow : Nat) (kernel : RowKernel α) : Edit (Array α) Unit := do
  let blank := Array.replicate (numRow * kernel.stride) Numeric.zero
  let (result, scores) := (byRow machine threads input numFeature kernel).apply blank
  result
  set (← found (transpose? numRow layout.numTarget layout.maxNumClass scores))

end Predict

namespace Model

def postprocessorFor (model : Model) : PredictKind → Result (Option Postprocessor)
  | .processed => return some (← model.info.postprocessing)
  | _ => return none

/-- Everything that a prediction checks and looks up before it writes: the number of threads and
the computation for each row. -/
def prepare {α : Type} [Score α] (machine : Machine) (model : Model) (config : Configuration)
    (input : Array α) (numRow outSize : Nat) : Result (Nat × Predict.RowKernel α) := do
  let info := model.info
  let given := Numeric.valueType α
  require (given = model.pairing.leafType)
    (.typeMismatch (.prediction model.pairing.leafType given))
  require (0 ≤ info.numFeature) (.config (.featureCount info.numFeature.toInt))
  let numFeature := info.numFeature.toInt.toNat
  require (numRow * numFeature = input.size) (.dimension (.input numRow numFeature input.size))
  let expected := model.outputSize numRow config.kind
  require (outSize = expected) (.dimension (.output expected outSize))
  model.check config.kind
  let threads ← config.resolveThreads machine.cores
  require (numFeature ≠ 0 ∨ numRow < Nat.pow 2 63) (.dimension .rowOverflow)
  let post ← model.postprocessorFor config.kind
  let kernel ← Predict.found (Predict.kernel? model config.kind post)
  return (threads, kernel)

/-- Predict the rows of a row-major input into an output buffer, both of the type of the model's
leaves. -/
def predictOn {α : Type} [Score α] (machine : Machine) (model : Model) (config : Configuration)
    (input : Array α) (numRow : Nat) : Edit (Array α) Unit := do
  let out ← get
  let (threads, kernel) ← model.prepare machine config input numRow out.size
  let numFeature := model.info.numFeature.toInt.toNat
  if config.kind.sums ∧ model.info.numTarget ≠ 1 then
    Predict.byTarget machine threads (.ofInfo model.info) input numFeature numRow kernel
  else Predict.byRow machine threads input numFeature kernel

/-- Predict where every pool of workers starts. `cores` is the number of threads that stands for
"all". -/
def predict {α : Type} [Score α] (model : Model) (cores : Nat) (config : Configuration)
    (input : Array α) (numRow : Nat) : Edit (Array α) Unit :=
  model.predictOn (.ofCores cores) config input numRow

end Model

end Arboretum

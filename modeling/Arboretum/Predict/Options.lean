import Arboretum.Json.Reader
import Arboretum.Model.Basic

/-!
What to predict and with how many threads, and the size of the answer.
-/

namespace Arboretum

inductive PredictKind where
  /-- Summed scores after post-processing. -/
  | processed
  /-- Summed scores as they are. -/
  | raw
  /-- The leaf that a row reaches in each tree. -/
  | leafId
  /-- The output of each tree by itself. -/
  | perTree
  deriving DecidableEq, Repr, Inhabited

instance : Enumeration PredictKind where
  title := "PredictKind"
  values := [.processed, .raw, .leafId, .perTree]
  name
    | .processed => "default"
    | .raw => "raw"
    | .leafId => "leaf_id"
    | .perTree => "score_per_tree"
  code
    | .processed => 0
    | .raw => 1
    | .leafId => 2
    | .perTree => 3

def PredictKind.ofName (text : String) : Result PredictKind :=
  match Enumeration.ofName? text with
  | some kind => .ok kind
  | none => .error (.config (.predictKind text))

/-- Whether scores are routed to targets and classes and summed. -/
def PredictKind.sums : PredictKind → Bool
  | .processed | .raw => true
  | .leafId | .perTree => false

/-- The number of worker threads that a request stands for: minus one asks for a single one, zero
for as many as there are cores. -/
def resolveThreads (cores : Nat) (threads : Int32) : Result Nat :=
  if threads = 0 then .ok (max cores 1)
  else if threads = -1 then .ok 1
  else if 0 < threads then .ok threads.toInt.toNat
  else .error (.parameter (.threadCount threads.toInt))

structure Configuration where
  kind : PredictKind
  threads : Int32
  deriving DecidableEq, Repr

namespace Configuration

def validate (config : Configuration) : Result Unit :=
  require (-1 ≤ config.threads) (.config (.threadCount config.threads.toInt))

def resolveThreads (config : Configuration) (cores : Nat) : Result Nat := do
  config.validate
  Arboretum.resolveThreads cores config.threads

/-- The stored form of a configuration. -/
def reader : JsonReader Configuration :=
  JsonReader.recordOf [["pred_kind"], ["nthread"]] false fun depth fields => do
    return {
      kind := ← JsonReader.required JsonReader.enumeration depth fields[0]?
      threads := ← JsonReader.required JsonReader.int32 depth fields[1]? }

def toJson (config : Configuration) : Json :=
  .object [("pred_kind", .string (Enumeration.name config.kind)),
    ("nthread", .integer config.threads.toInt)]

/-- The request as a caller words it: both fields may be absent, and no other is known. -/
def requestReader : JsonReader (Option String × Option Int32) :=
  JsonReader.recordOf [["predict_type"], ["nthread"]] true fun depth fields => do
    return (← JsonReader.allowed JsonReader.string depth fields[0]?,
      ← JsonReader.allowed JsonReader.int32 depth fields[1]?)

/-- A configuration from the text of a request. -/
def ofRequest (text : String) : Result Configuration :=
  match requestReader.run text with
  | none => .error .json
  | some (kind, threads) => do
    let kind ← (kind.map PredictKind.ofName).getD (.ok .processed)
    let config : Configuration := ⟨kind, threads.getD 0⟩
    config.validate
    return config

end Configuration

namespace Model

/-- The shape of the answer for a number of rows. -/
def outputShape (model : Model) (numRow : Nat) (kind : PredictKind) : List Nat :=
  match kind with
  | .processed | .raw =>
    if 1 < model.info.numTarget then
      [model.info.numTarget.toNat, numRow, model.maxNumClass.toNat]
    else [numRow, model.maxNumClass.toNat]
  | .leafId => [numRow, model.numTree]
  | .perTree =>
    [numRow, model.numTree, (model.info.leafVectorShape.toList.map UInt32.toNat).foldr (· * ·) 1]

def outputSize (model : Model) (numRow : Nat) (kind : PredictKind) : Nat :=
  (model.outputShape numRow kind).foldr (· * ·) 1

end Model

end Arboretum

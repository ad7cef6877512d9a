import Arboretum.Builder.Basic

/-!
Reading descriptors from JSON text, and a builder from one document that holds all of them. Each
record may be an object or an array of its fields. The builder document admits no foreign keys
at any level; elsewhere they are ignored.
-/

namespace Arboretum

open JsonReader

def Metadata.reader (closed : Bool) : JsonReader Metadata :=
  recordOf [["num_feature"], ["task_type"], ["average_tree_output"], ["num_target"],
    ["num_class"], ["leaf_vector_shape"]] closed fun depth fields => do
    let (targets, classes) ← required (pair uint32) depth fields[5]?
    return {
      numFeature := ← required int32 depth fields[0]?
      task := ← required enumeration depth fields[1]?
      averageTreeOutput := ← required bool depth fields[2]?
      numTarget := ← required uint32 depth fields[3]?
      numClass := (← required (list uint32) depth fields[4]?).toArray
      leafShape := ⟨targets, classes⟩ }

def TreeRouting.reader (closed : Bool) : JsonReader TreeRouting :=
  recordOf [["num_tree"], ["target_id"], ["class_id"]] closed fun depth fields => do
    return {
      numTree := ← required uint32 depth fields[0]?
      targetId := (← required (list int32) depth fields[1]?).toArray
      classId := (← required (list int32) depth fields[2]?).toArray }

def PostprocessorChoice.reader : JsonReader PostprocessorChoice :=
  recordOf [["name"], ["config_json"]] false fun depth fields => do
    return {
      name := ← required string depth fields[0]?
      config := ← required string depth fields[1]? }

namespace Metadata

def toJson (metadata : Metadata) : Json :=
  .object
    [("num_feature", .integer metadata.numFeature.toInt),
      ("task_type", .string (Enumeration.name metadata.task)),
      ("average_tree_output", .bool metadata.averageTreeOutput),
      ("num_target", .integer metadata.numTarget.toNat),
      ("num_class", .array (metadata.numClass.toList.map fun n => .integer n.toNat)),
      ("leaf_vector_shape", .array [.integer metadata.leafShape.targets.toNat,
        .integer metadata.leafShape.classes.toNat])]

end Metadata

def TreeRouting.toJson (routing : TreeRouting) : Json :=
  .object
    [("num_tree", .integer routing.numTree.toNat),
      ("target_id", .array (routing.targetId.toList.map fun n => .integer n.toInt)),
      ("class_id", .array (routing.classId.toList.map fun n => .integer n.toInt))]

def PostprocessorChoice.toJson (choice : PostprocessorChoice) : Json :=
  .object [("name", .string choice.name), ("config_json", .string choice.config)]

/-- Everything that a builder is made from, as one document. -/
structure BuilderDocument where
  thresholdType : ValueType
  leafType : ValueType
  metadata : Metadata
  routing : TreeRouting
  postprocessor : String
  config : Option Json
  baseScores : Array Double
  attributes : Option Json

namespace BuilderDocument

/-- The post-processing function of the document: its name, and any value as its parameters. -/
def postprocessorReader : JsonReader (String × Option Json) :=
  recordOf [["name"], ["config"]] true fun depth fields => do
    return (← required string depth fields[0]?, ← allowed value depth fields[1]?)

def reader : JsonReader BuilderDocument :=
  recordOf [["threshold_type"], ["leaf_output_type"], ["metadata"], ["tree_annotation"],
    ["postprocessor", "pred_transform"], ["base_scores"], ["attributes"]] true
    fun depth fields => do
    let (name, config) ← required postprocessorReader depth fields[4]?
    return {
      thresholdType := ← required enumeration depth fields[0]?
      leafType := ← required enumeration depth fields[1]?
      metadata := ← required (Metadata.reader true) depth fields[2]?
      routing := ← required (TreeRouting.reader true) depth fields[3]?
      postprocessor := name
      config := config
      baseScores := (← required (list double) depth fields[5]?).toArray
      attributes := ← allowed value depth fields[6]? }

/-- The parameters of the post-processing function as text; none at all is an empty object. -/
def choice (document : BuilderDocument) : Result PostprocessorChoice :=
  match document.config with
  | none => .ok ⟨document.postprocessor, noAttributes⟩
  | some (.object members) =>
    .ok ⟨document.postprocessor, (Json.object members).compactText⟩
  | some _ => .error (.config .documentConfig)

def attributesText (document : BuilderDocument) : Result (Option String) :=
  match document.attributes with
  | none => .ok none
  | some (.object members) => .ok (some (Json.object members).compactText)
  | some _ => .error (.config .attributes)

end BuilderDocument

/-- A builder from a document. -/
def Builder.ofDocument (text : String) : Result Builder :=
  match BuilderDocument.reader.run text with
  | none => .error .json
  | some document => do
    document.metadata.validate
    document.routing.validate
    let choice ← document.choice
    let attributes ← document.attributesText
    create document.thresholdType document.leafType document.metadata document.routing choice
      document.baseScores attributes

end Arboretum

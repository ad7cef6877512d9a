import Arboretum.Builder.Phase
import Arboretum.Enumeration
import Arboretum.LeafShape
import Arboretum.Text.Quoted

/-!
Everything that can go wrong, as causes. `Error.category` names the class of a cause and
`Error.message` words it; no other module words a failure.
-/

namespace Arboretum

/-- A builder call at the wrong time. -/
inductive ProtocolFault where
  | unexpectedCall (call : BuilderCall) (phase : BuilderPhase)
  | tooManyTrees (tree declared : Nat)
  | missingTrees (declared built : Nat)
  deriving DecidableEq, Repr

namespace ProtocolFault

def message : ProtocolFault → String
  | unexpectedCall call phase => s!"unexpected call to {call.name}() in state {phase.name}"
  | tooManyTrees tree declared =>
    s!"cannot start tree {tree}: the model was declared with {declared} trees"
  | missingTrees declared built =>
    s!"expected {declared} trees but only got {built} trees instead"

end ProtocolFault

/-- The two stores of variable-length node data. -/
inductive NodeStore where
  | leafVector
  | categoryList
  deriving DecidableEq, Repr

def NodeStore.name : NodeStore → String
  | leafVector => "leaf vector"
  | categoryList => "category list"

/-- A broken tree, a misuse of a tree, or trees that do not fit their model. -/
inductive StructuralFault where
  | tooManyNodes
  | noSuchNode (node : Nat) (numNodes : Int)
  | featureTooLarge (feature bound : Nat)
  | categoriesOutOfOrder (node later : Nat)
  | negativeNodeCount (numNodes : Int)
  | badRange (node : Nat) (store : NodeStore) (first last : Nat)
  | oneChild (node : Nat) (left right : Int)
  | childOutOfRange (node : Nat)
  | kindMismatch (node : Nat) (kind : NodeKind) (left right : Int)
  | reachedTwice (node : Nat)
  | orphan (node : Nat)
  | negativeKey (key : Int)
  | repeatedKey (key : Int)
  | unknownKey (key : Int)
  | negativeChildKeys (left right : Int)
  | equalChildKeys (key : Int)
  | ownChild (key : Int)
  | featureOutOfRange (feature numFeature : Int)
  | missingComparison
  | scalarLeaf (declared : LeafShape)
  | leafVectorLength (declared : LeafShape) (length : Nat)
  | emptyDeclaration
  | routingLength (targets classes trees : Nat)
  | invalidTarget (tree : Nat) (target : Int)
  | invalidClass (tree : Nat) (class_ : Int)
  | leafShapeMismatch (tree : Nat) (target class_ : Int) (needed declared : LeafShape)
  | emptyTree (tree : Nat)
  | leafVectorMismatch (tree node length expected : Nat)
  | scalarForVector (tree node : Nat)
  | unknownFeature (tree node feature numFeature : Nat)
  | accessOutOfRange
  deriving DecidableEq, Repr

namespace StructuralFault

def message : StructuralFault → String
  | tooManyNodes => "tree has too many nodes"
  | noSuchNode node numNodes => s!"node {node} does not exist (tree has {numNodes} nodes)"
  | featureTooLarge feature bound => s!"split_index {feature} must be less than {bound}"
  | categoriesOutOfOrder node later =>
    s!"categorical split on node {node} must be set before node {later} receives categories"
  | negativeNodeCount numNodes => s!"negative node count {numNodes}"
  | badRange node store first last =>
    s!"node {node} has invalid {store.name} range [{first}, {last})"
  | oneChild node left right => s!"node {node} has exactly one child ({left}, {right})"
  | childOutOfRange node => s!"node {node} has out-of-range children"
  | kindMismatch node kind left right =>
    s!"node {node} has type {Enumeration.name kind} but children ({left}, {right})"
  | reachedTwice node => s!"node {node} is reachable along more than one path"
  | orphan node => s!"node {node} is not reachable from the root (orphaned node)"
  | negativeKey key => s!"node key must be non-negative, got {key}"
  | repeatedKey key => s!"node key {key} was already declared in this tree"
  | unknownKey key => s!"node key {key} is referenced as a child but was never declared"
  | negativeChildKeys left right => s!"child keys must be non-negative, got ({left}, {right})"
  | equalChildKeys key => s!"left and right child keys must differ, got {key} twice"
  | ownChild key => s!"node {key} cannot be its own child"
  | featureOutOfRange feature numFeature =>
    s!"split_index {feature} is out of range for num_feature = {numFeature}"
  | missingComparison => "numerical test requires a comparison operator"
  | scalarLeaf declared =>
    s!"scalar leaf requires leaf_vector_shape [1, 1], model has {declared.text}"
  | leafVectorLength declared length =>
    s!"leaf vector must have length {declared.size} (leaf_vector_shape {declared.text}), got {length}"
  | emptyDeclaration => "cannot end a tree with no nodes"
  | routingLength targets classes trees =>
    s!"target_id/class_id have {targets}/{classes} entries for {trees} trees"
  | invalidTarget tree target => s!"tree {tree} has invalid target_id {target}"
  | invalidClass tree class_ => s!"tree {tree} has invalid class_id {class_}"
  | leafShapeMismatch tree target class_ needed declared =>
    s!"tree {tree} (target_id = {target}, class_id = {class_}) needs leaf_vector_shape " ++
      s!"{needed.text}, model has {declared.text}"
  | emptyTree tree => s!"tree {tree} has no nodes"
  | leafVectorMismatch tree node length expected =>
    s!"tree {tree} node {node} has a leaf vector of length {length}, expected {expected}"
  | scalarForVector tree node =>
    s!"tree {tree} node {node} has a scalar leaf but the tree produces a vector"
  | unknownFeature tree node feature numFeature =>
    s!"tree {tree} node {node} splits on feature {feature} but num_feature = {numFeature}"
  | accessOutOfRange => "prediction left the bounds of the model"

end StructuralFault

/-- Value types that do not go together. -/
inductive TypeFault where
  | pairing (threshold leaf : ValueType)
  | mixedPairings (model : Nat) (threshold leaf firstThreshold firstLeaf : ValueType)
  | builderPairing (threshold leaf : ValueType)
  | builderThreshold (threshold : ValueType)
  | leafVector (expected given : ValueType)
  | prediction (expected given : ValueType)
  deriving DecidableEq, Repr

namespace TypeFault

def message : TypeFault → String
  | pairing threshold leaf =>
    s!"illegal type pairing: threshold_type = {Enumeration.name threshold}, " ++
      s!"leaf_output_type = {Enumeration.name leaf}; threshold_type must be float32 or float64 " ++
      "and leaf_output_type must be uint32 or equal to threshold_type"
  | mixedPairings model threshold leaf firstThreshold firstLeaf =>
    s!"model {model} has type pairing ({Enumeration.name threshold}, {Enumeration.name leaf}) " ++
      s!"but model 0 has ({Enumeration.name firstThreshold}, {Enumeration.name firstLeaf})"
  | builderPairing threshold leaf =>
    s!"model builder requires leaf_output_type ({Enumeration.name leaf}) to equal " ++
      s!"threshold_type ({Enumeration.name threshold})"
  | builderThreshold threshold =>
    s!"model builder requires float32 or float64 thresholds, got {Enumeration.name threshold}"
  | leafVector expected given =>
    s!"mismatched type for leaf vector: expected {Enumeration.name expected}, " ++
      s!"got {Enumeration.name given}"
  | prediction expected given =>
    s!"incorrect input type passed to predict(); expected {Enumeration.name expected}, " ++
      s!"got {Enumeration.name given}"

end TypeFault

/-- Descriptors, options or model metadata that contradict each other. -/
inductive ConfigFault where
  | numClassLength (numTarget length : Nat)
  | emptyClass
  | leafShapeTargets (numTarget given : Nat)
  | leafShapeClasses (maxNumClass given : Nat)
  | routingFieldLength (field : String) (numTree length : Nat)
  | targetOutOfRange (tree : Nat) (target : Int) (numTarget : Nat)
  | classOutOfRange (tree : Nat) (class_ : Int) (bound : Nat)
  | leafShapeMismatch (tree : Nat) (target class_ : Int) (needed declared : LeafShape)
  | postprocessorConfig
  | documentConfig
  | attributes
  | predictKind (text : String)
  | threadCount (count : Int)
  | noModels
  | featureCount (count : Int)
  | classesPerTarget (entries numTarget : Nat)
  | targetWithoutClass
  | leafShapeLength (length : Nat)
  | baseScores (expected given : Nat)
  deriving DecidableEq, Repr

namespace ConfigFault

def message : ConfigFault → String
  | numClassLength numTarget length =>
    s!"num_class field must have length equal to num_target ({numTarget}), got {length}"
  | emptyClass => "all elements in num_class field must be at least 1"
  | leafShapeTargets numTarget given =>
    s!"leaf_vector_shape[0] must be either 1 or num_target ({numTarget}), got {given}"
  | leafShapeClasses maxNumClass given =>
    s!"leaf_vector_shape[1] must be either 1 or max_num_class ({maxNumClass}), got {given}"
  | routingFieldLength field numTree length =>
    s!"{field} field must have length equal to num_tree ({numTree}), got {length}"
  | targetOutOfRange tree target numTarget =>
    s!"target_id[{tree}] = {target} is out of range for num_target = {numTarget}"
  | classOutOfRange tree class_ bound =>
    s!"class_id[{tree}] = {class_} is out of range (number of classes: {bound})"
  | leafShapeMismatch tree target class_ needed declared =>
    s!"tree {tree} with target_id = {target}, class_id = {class_} needs leaf_vector_shape " ++
      s!"{needed.text}, but the model declares {declared.text}"
  | postprocessorConfig => "post-processor config must be a JSON object"
  | documentConfig => "postprocessor.config must be a JSON object"
  | attributes => "attributes must be a JSON object"
  | predictKind text =>
    s!"unknown predict_type {quoted text}; expected one of default, raw, leaf_id, score_per_tree"
  | threadCount count => s!"nthread must be -1, 0 or a positive integer, got {count}"
  | noModels => "cannot concatenate an empty list of models"
  | featureCount count => s!"model has invalid num_feature {count}"
  | classesPerTarget entries numTarget =>
    s!"num_class has {entries} entries but num_target = {numTarget}"
  | targetWithoutClass => "every target needs at least one class"
  | leafShapeLength length => s!"leaf_vector_shape must have 2 entries, got {length}"
  | baseScores expected given =>
    s!"base_scores must have {expected} entries (num_target * max_num_class), got {given}"

end ConfigFault

/-- A single argument outside its range. -/
inductive ParameterFault where
  | featureCount (count : Int)
  | noTarget
  | noTree
  | treeLimit (limit numTree : Nat)
  | threadCount (count : Int)
  | valueType (text : String)
  | task (text : String)
  deriving DecidableEq, Repr

namespace ParameterFault

def parameter : ParameterFault → String
  | featureCount _ => "num_feature"
  | noTarget => "num_target"
  | noTree | treeLimit _ _ => "limit"
  | threadCount _ => "nthread"
  | valueType _ => "type"
  | task _ => "task_type"

def value : ParameterFault → String
  | featureCount count | threadCount count => toString count
  | noTarget | noTree => "0"
  | treeLimit limit _ => toString limit
  | valueType text | task text => text

def reason : ParameterFault → String
  | featureCount _ => "must be non-negative"
  | noTarget => "num_target must be at least 1"
  | noTree => "tree limit must be positive"
  | treeLimit _ numTree => s!"model only has {numTree} trees"
  | threadCount _ => "must be -1, 0, or a positive integer"
  | valueType _ => "expected one of uint32, float32, float64"
  | task _ => "unknown task type"

end ParameterFault

/-- What was being read when the input ended. -/
inductive MissingData where
  | field (name : String)
  | frame (name : String)
  | frameData (index : Nat) (name : String)
  | wholeElements (format : String)
  deriving DecidableEq, Repr

def MissingData.text : MissingData → String
  | field name => name
  | frame name => s!"frame for {name}"
  | frameData index name => s!"data of frame {index} ({name})"
  | wholeElements format => s!"column of {format}"

/-- Stored data that is cut short, inconsistent or names something unknown. -/
inductive FormatFault where
  | unexpectedEnd (missing : MissingData)
  | frameType (index : Nat) (format : String) (itemSize : Nat) (expectedFormat : String)
      (expectedSize : Nat)
  | scalarFrameLength (index items : Nat)
  | invalidValue (vocabulary : String) (value : Int)
  | columnLength (column : String) (length expected : Nat)
  | invalidText
  | arrayLength (field : String) (count : Nat)
  | optionalFieldSize (name : String)
  | optionalFieldCount (slot : String) (count : Int)
  | unknownComparison (text : String)
  | unknownPostprocessor (name : String)
  | missingComparison (tree node : Nat)
  deriving DecidableEq, Repr

namespace FormatFault

def message : FormatFault → String
  | unexpectedEnd missing => s!"Unexpected end of input while reading {missing.text}"
  | frameType index format itemSize expectedFormat expectedSize =>
    s!"Frame {index} has format {quoted format} (item size {itemSize}), " ++
      s!"expected {quoted expectedFormat} (item size {expectedSize})"
  | scalarFrameLength index items => s!"Frame {index} is a scalar field but holds {items} items"
  | invalidValue vocabulary value => s!"Invalid value {value} for {vocabulary}"
  | columnLength column length expected =>
    s!"Column {column} has {length} entries, expected {expected}"
  | invalidText => "String field is not valid UTF-8"
  | arrayLength field count => s!"array {field} has invalid length {count}"
  | optionalFieldSize name => s!"optional field {name} has an invalid size"
  | optionalFieldCount slot count => s!"negative optional field count {count} for {slot}"
  | unknownComparison text => s!"unrecognized comparison operator {quoted text}"
  | unknownPostprocessor name => s!"post-processor named '{name}' not found"
  | missingComparison tree node => s!"tree {tree} node {node} has no comparison operator"

end FormatFault

/-- A buffer of the wrong size. -/
inductive DimensionFault where
  | baseScores (expected given : Nat)
  | input (rows features given : Nat)
  | output (expected given : Nat)
  /-- More rows than a signed word counts. -/
  | rowOverflow
  deriving DecidableEq, Repr

namespace DimensionFault

def expected : DimensionFault → String
  | baseScores expected _ => s!"{expected} base scores (num_target * max_num_class)"
  | input rows features _ => s!"{rows} x {features} input values"
  | output expected _ => s!"{expected} output values"
  | rowOverflow => "row-major buffer"

def given : DimensionFault → String
  | baseScores _ given => s!"{given} base scores"
  | input _ _ given | output _ given => s!"{given} values"
  | rowOverflow => "ShapeError/Overflow: arithmetic overflow"

end DimensionFault

/-- A version of the binary format. -/
structure FormatVersion where
  major : Int32
  minor : Int32
  patch : Int32
  deriving DecidableEq, Repr, Inhabited

namespace FormatVersion

def current : FormatVersion := ⟨4, 0, 0⟩

def text (version : FormatVersion) : String :=
  s!"{version.major}.{version.minor}.{version.patch}"

end FormatVersion

/-- Why an operation failed. The wording of malformed JSON text and of failed file access belongs
to others, so these two carry nothing. -/
inductive Error where
  | protocol (fault : ProtocolFault)
  | structural (fault : StructuralFault)
  | typeMismatch (fault : TypeFault)
  | config (fault : ConfigFault)
  | parameter (fault : ParameterFault)
  | format (fault : FormatFault)
  | version (stored : FormatVersion)
  | dimension (fault : DimensionFault)
  | threading (message : String)
  | json
  | io
  deriving DecidableEq, Repr

namespace Error

def category : Error → String
  | protocol _ => "protocol"
  | structural _ => "structural"
  | typeMismatch _ => "type_mismatch"
  | config _ => "config"
  | parameter _ => "invalid_parameter"
  | format _ => "format"
  | version _ => "version"
  | dimension _ => "dimension_mismatch"
  | threading _ => "threading"
  | json => "json"
  | io => "io"

/-- The wording of an error, where this library words it. -/
def message? : Error → Option String
  | protocol fault => some s!"Protocol violation: {fault.message}"
  | structural fault => some s!"Structural error: {fault.message}"
  | typeMismatch fault => some s!"Type mismatch: {fault.message}"
  | config fault => some s!"Configuration error: {fault.message}"
  | parameter fault =>
    some s!"Invalid parameter: {fault.parameter} = {fault.value}, {fault.reason}"
  | format fault => some s!"Format error: {fault.message}"
  | version stored =>
    some <| s!"Incompatible version: cannot load model from version {stored.text}; " ++
      s!"running version is {FormatVersion.current.text}"
  | dimension fault =>
    some s!"Dimension mismatch: expected {fault.expected}, got {fault.given}"
  | threading message => some s!"Threading error: {message}"
  | json | io => none

end Error

/-- The result of an operation that may fail. -/
abbrev Result (α : Type) := Except Error α

/-- Fail unless a condition holds. -/
def require (condition : Prop) [Decidable condition] (error : Error) : Result Unit :=
  if condition then .ok () else .error error

end Arboretum

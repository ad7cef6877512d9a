/-!
The closed vocabularies of a tree ensemble: value types, learning tasks, comparison operators and
node kinds. Each constant has a name, used in documents and messages, and a one-byte code, used in
the binary format.
-/

namespace Arboretum

/-- A finite vocabulary whose constants are written by name and stored by code. -/
class Enumeration (α : Type) where
  /-- The name of the vocabulary itself, for messages about unknown codes. -/
  title : String
  values : List α
  name : α → String
  code : α → Nat

namespace Enumeration

variable {α : Type} [Enumeration α]

def ofName? (text : String) : Option α :=
  (values (α := α)).find? fun value => name value == text

def ofCode? (number : Nat) : Option α :=
  (values (α := α)).find? fun value => code value == number

end Enumeration

/-- The type of a threshold or of a leaf output. -/
inductive ValueType where
  | invalid
  | uint32
  | float32
  | float64
  deriving DecidableEq, Repr, Inhabited

instance : Enumeration ValueType where
  title := "TypeInfo"
  values := [.invalid, .uint32, .float32, .float64]
  name
    | .invalid => "invalid"
    | .uint32 => "uint32"
    | .float32 => "float32"
    | .float64 => "float64"
  code
    | .invalid => 0
    | .uint32 => 1
    | .float32 => 2
    | .float64 => 3

/-- What the ensemble was trained for. -/
inductive Task where
  | binaryClassification
  | regression
  | multiClassification
  | learningToRank
  | isolationForest
  deriving DecidableEq, Repr, Inhabited

instance : Enumeration Task where
  title := "TaskType"
  values :=
    [.binaryClassification, .regression, .multiClassification, .learningToRank, .isolationForest]
  name
    | .binaryClassification => "kBinaryClf"
    | .regression => "kRegressor"
    | .multiClassification => "kMultiClf"
    | .learningToRank => "kLearningToRank"
    | .isolationForest => "kIsolationForest"
  code
    | .binaryClassification => 0
    | .regression => 1
    | .multiClassification => 2
    | .learningToRank => 3
    | .isolationForest => 4

/-- The relation of a numerical test; `never` stands at nodes that make no such test. -/
inductive Comparison where
  | never
  | equal
  | less
  | lessOrEqual
  | greater
  | greaterOrEqual
  deriving DecidableEq, Repr, Inhabited

instance : Enumeration Comparison where
  title := "Operator"
  values := [.never, .equal, .less, .lessOrEqual, .greater, .greaterOrEqual]
  name
    | .never => ""
    | .equal => "=="
    | .less => "<"
    | .lessOrEqual => "<="
    | .greater => ">"
    | .greaterOrEqual => ">="
  code
    | .never => 0
    | .equal => 1
    | .less => 2
    | .lessOrEqual => 3
    | .greater => 4
    | .greaterOrEqual => 5

inductive NodeKind where
  | leaf
  | numericalTest
  | categoricalTest
  deriving DecidableEq, Repr, Inhabited

instance : Enumeration NodeKind where
  title := "TreeNodeType"
  values := [.leaf, .numericalTest, .categoricalTest]
  name
    | .leaf => "leaf_node"
    | .numericalTest => "numerical_test_node"
    | .categoricalTest => "categorical_test_node"
  code
    | .leaf => 0
    | .numericalTest => 1
    | .categoricalTest => 2

end Arboretum

/-!
The protocol of building a model: the phases that a builder goes through and the calls that each
of them admits. Trees are declared one after another, nodes one after another inside a tree, and
every node gets exactly one test or leaf output.
-/

namespace Arboretum

inductive BuilderPhase where
  | expectTree
  | expectNode
  | expectDetail
  | nodeComplete
  | modelComplete
  deriving DecidableEq, Repr, Inhabited

/-- The calls of the protocol, without their arguments. -/
inductive BuilderCall where
  | startTree
  | endTree
  | startNode
  | endNode
  | numericalTest
  | categoricalTest
  | leafScalar
  | leafVector
  | gain
  | dataCount
  | sumHess
  | commitModel
  deriving DecidableEq, Repr

namespace BuilderPhase

def values : List BuilderPhase :=
  [.expectTree, .expectNode, .expectDetail, .nodeComplete, .modelComplete]

def name : BuilderPhase → String
  | expectTree => "ExpectTree"
  | expectNode => "ExpectNode"
  | expectDetail => "ExpectDetail"
  | nodeComplete => "NodeComplete"
  | modelComplete => "ModelComplete"

end BuilderPhase

namespace BuilderCall

def values : List BuilderCall :=
  [.startTree, .endTree, .startNode, .endNode, .numericalTest, .categoricalTest, .leafScalar,
    .leafVector, .gain, .dataCount, .sumHess, .commitModel]

def name : BuilderCall → String
  | startTree => "StartTree"
  | endTree => "EndTree"
  | startNode => "StartNode"
  | endNode => "EndNode"
  | numericalTest => "NumericalTest"
  | categoricalTest => "CategoricalTest"
  | leafScalar => "LeafScalar"
  | leafVector => "LeafVector"
  | gain => "Gain"
  | dataCount => "DataCount"
  | sumHess => "SumHess"
  | commitModel => "CommitModel"

end BuilderCall

/-- The phase after a call, where the phase admits it. Statistics may come before or after the
test or leaf output of their node and leave the phase as it is. -/
def BuilderPhase.after? : BuilderPhase → BuilderCall → Option BuilderPhase
  | .expectTree, .startTree => some .expectNode
  | .expectTree, .commitModel => some .modelComplete
  | .expectNode, .startNode => some .expectDetail
  | .expectNode, .endTree => some .expectTree
  | .expectDetail, .numericalTest
  | .expectDetail, .categoricalTest
  | .expectDetail, .leafScalar
  | .expectDetail, .leafVector => some .nodeComplete
  | .nodeComplete, .endNode => some .expectNode
  | .expectDetail, .gain
  | .expectDetail, .dataCount
  | .expectDetail, .sumHess => some .expectDetail
  | .nodeComplete, .gain
  | .nodeComplete, .dataCount
  | .nodeComplete, .sumHess => some .nodeComplete
  | _, _ => none

end Arboretum

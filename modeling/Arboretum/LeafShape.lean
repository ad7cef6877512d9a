/-!
The shape of a leaf output: how many targets and how many classes of each it covers.
-/

namespace Arboretum

structure LeafShape where
  targets : UInt32
  classes : UInt32
  deriving DecidableEq, Repr, Inhabited

/-- The target or class id of a tree that feeds every target or class. -/
def allSlots : Int32 := -1

namespace LeafShape

def scalar : LeafShape := ⟨1, 1⟩

def size (shape : LeafShape) : Nat := shape.targets.toNat * shape.classes.toNat

/-- What a tree must produce that feeds the given target and class: a whole axis where it feeds
all of it, one slot elsewhere. -/
def ofRouting (target class_ : Int32) (numTarget maxNumClass : UInt32) : LeafShape where
  targets := if target = allSlots then numTarget else 1
  classes := if class_ = allSlots then maxNumClass else 1

def text (shape : LeafShape) : String := s!"[{shape.targets}, {shape.classes}]"

end LeafShape

end Arboretum

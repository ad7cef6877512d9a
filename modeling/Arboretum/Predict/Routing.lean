import Arboretum.Model.Basic

/-!
Where the output of a tree goes. Scores of a row are laid out target by target with room for the
largest class count each. A tree feeds one target or all, and one class or all.
-/

namespace Arboretum

/-- One score that a tree feeds, and the entry of its leaf vector that goes there. -/
structure Slot where
  score : Nat
  entry : Nat
  deriving DecidableEq, Repr

/-- The position that an id names; a negative one names none. -/
def position? (id : Int32) : Option Nat := if id < 0 then none else some id.toInt.toNat

/-- The layout of the scores of a row. -/
structure ScoreLayout where
  numClass : Array UInt32
  maxNumClass : Nat
  deriving DecidableEq, Repr

namespace ScoreLayout

def ofInfo (info : ModelInfo) : ScoreLayout :=
  ⟨info.numClass.take info.numTarget.toNat, (largestClassCount info.numClass).toNat⟩

def numTarget (layout : ScoreLayout) : Nat := layout.numClass.size

/-- The number of scores of a row, padding included. -/
def stride (layout : ScoreLayout) : Nat := layout.numTarget * layout.maxNumClass

def targets (layout : ScoreLayout) : List (UInt32 × Nat) := layout.numClass.toList.zipIdx

/-- The scores that a tree with the given target and class feeds, in order; nothing if it names a
target that is not there. -/
def slots? (layout : ScoreLayout) (target class_ : Int32) : Option (List Slot) :=
  let place := fun t c => t * layout.maxNumClass + c
  if target = allSlots then
    if class_ = allSlots then
      some <| layout.targets.flatMap fun (count, t) =>
        (List.range count.toNat).map fun c => ⟨place t c, place t c⟩
    else do
      let c ← position? class_
      return layout.targets.map fun (_, t) => ⟨place t c, t⟩
  else do
    let t ← position? target
    if class_ = allSlots then
      let count ← layout.numClass[t]?
      return (List.range count.toNat).map fun c => ⟨place t c, c⟩
    else
      let c ← position? class_
      return [⟨place t c, 0⟩]

end ScoreLayout

end Arboretum

import Arboretum.Error

/-!
Reading the constants of a vocabulary from the names that callers give. The constants that stand
for "none" have names in stored data, but a caller cannot ask for them.
-/

namespace Arboretum

def ValueType.ofName (text : String) : Result ValueType :=
  match (Enumeration.ofName? text : Option ValueType) with
  | none | some .invalid => .error (.parameter (.valueType text))
  | some type => .ok type

def Task.ofName (text : String) : Result Task :=
  match (Enumeration.ofName? text : Option Task) with
  | none => .error (.parameter (.task text))
  | some task => .ok task

def Comparison.ofName (text : String) : Result Comparison :=
  match (Enumeration.ofName? text : Option Comparison) with
  | none | some .never => .error (.format (.unknownComparison text))
  | some comparison => .ok comparison

end Arboretum

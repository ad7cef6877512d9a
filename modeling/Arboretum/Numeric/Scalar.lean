import Arboretum.Enumeration
import Arboretum.Numeric.FloatFormat

/-!
The numbers that thresholds, leaves and features are made of: 32-bit unsigned integers and the two
binary floating-point words. The words keep every bit they were given, so a pattern that is not a
number survives storage unchanged. Conversion between any two types goes through `Scalar`.
-/

namespace Arboretum

structure Single where
  bits : UInt32
  deriving DecidableEq, Repr, Inhabited

structure Double where
  bits : UInt64
  deriving DecidableEq, Repr, Inhabited

/-- A floating-point word type: its format and its patterns as natural numbers. -/
class FloatWord (α : Type) where
  format : FloatFormat
  pattern : α → Nat
  ofPattern : Nat → α

instance : FloatWord Single where
  format := .binary32
  pattern x := x.bits.toNat
  ofPattern n := ⟨.ofNat n⟩

instance : FloatWord Double where
  format := .binary64
  pattern x := x.bits.toNat
  ofPattern n := ⟨.ofNat n⟩

namespace FloatWord

variable {α β : Type} [FloatWord α] [FloatWord β]

def isNaN (x : α) : Bool := (format α).isNaN (pattern x)

def unpack (x : α) : FloatDatum := (format α).unpack (pattern x)

def toNat? (x : α) : Option Nat := (format α).toNat? (pattern x)

/-- The word nearest to `± num / den`. -/
def ofRatio (negative : Bool) (num den : Nat) : α := ofPattern ((format α).round negative num den)

def ofNat (n : Nat) : α := ofRatio false n 1

def convert (x : α) : β := ofPattern ((format α).convert (format β) (pattern x))

/-- The word cut toward zero and confined to the range of the integer type. -/
def toUInt32 (x : α) : UInt32 := .ofNat ((format α).truncateTo (UInt32.size - 1) (pattern x))

end FloatWord

/-- A number of one of the three types. -/
inductive Scalar where
  | uint32 (value : UInt32)
  | single (value : Single)
  | double (value : Double)
  deriving DecidableEq, Repr

namespace Scalar

def toUInt32 : Scalar → UInt32
  | uint32 n => n
  | single x => FloatWord.toUInt32 x
  | double x => FloatWord.toUInt32 x

def toSingle : Scalar → Single
  | uint32 n => FloatWord.ofNat n.toNat
  | single x => x
  | double x => FloatWord.convert x

def toDouble : Scalar → Double
  | uint32 n => FloatWord.ofNat n.toNat
  | single x => FloatWord.convert x
  | double x => x

end Scalar

/-- A type of thresholds or leaf outputs. -/
class Numeric (α : Type) where
  valueType : ValueType
  zero : α
  toScalar : α → Scalar
  ofScalar : Scalar → α
  /-- The place of a number in the order of its type; a word that is not a number has none. -/
  rank? : α → Option Int

instance : Numeric UInt32 where
  valueType := .uint32
  zero := 0
  toScalar := .uint32
  ofScalar := Scalar.toUInt32
  rank? n := some n.toNat

instance : Numeric Single where
  valueType := .float32
  zero := ⟨0⟩
  toScalar := .single
  ofScalar := Scalar.toSingle
  rank? x := FloatFormat.binary32.rank? x.bits.toNat

instance : Numeric Double where
  valueType := .float64
  zero := ⟨0⟩
  toScalar := .double
  ofScalar := Scalar.toDouble
  rank? x := FloatFormat.binary64.rank? x.bits.toNat

/-- A type whose numbers a scalar gives back with every bit. -/
class LawfulNumeric (α : Type) [Numeric α] : Prop where
  ofScalar_toScalar (x : α) : Numeric.ofScalar (Numeric.toScalar x) = x

instance : LawfulNumeric UInt32 := ⟨fun _ => rfl⟩

instance : LawfulNumeric Single := ⟨fun _ => rfl⟩

instance : LawfulNumeric Double := ⟨fun _ => rfl⟩

namespace Numeric

variable {α β : Type} [Numeric α] [Numeric β]

/-- A number as the nearest one of another type. A type to itself changes no bit. -/
def cast (x : α) : β := ofScalar (toScalar x)

@[simp] theorem cast_self [LawfulNumeric α] (x : α) : (cast x : α) = x :=
  LawfulNumeric.ofScalar_toScalar x

/-- The order of numbers, false as soon as one side is not a number. -/
def less (x y : α) : Bool :=
  match rank? x, rank? y with
  | some i, some j => i < j
  | _, _ => false

def lessOrEqual (x y : α) : Bool :=
  match rank? x, rank? y with
  | some i, some j => i ≤ j
  | _, _ => false

/-- Numeric equality: the two zeros agree, and a word that is not a number differs from itself. -/
def agrees (x y : α) : Bool :=
  match rank? x, rank? y with
  | some i, some j => i == j
  | _, _ => false

end Numeric

def Comparison.holds {α : Type} [Numeric α] : Comparison → α → α → Bool
  | .never, _, _ => false
  | .equal, x, y => Numeric.agrees x y
  | .less, x, y => Numeric.less x y
  | .lessOrEqual, x, y => Numeric.lessOrEqual x y
  | .greater, x, y => Numeric.less y x
  | .greaterOrEqual, x, y => Numeric.lessOrEqual y x

/-- Apply a machine operation to the bits of a word. -/
@[inline] def Single.lift (f : Float32 → Float32) (x : Single) : Single :=
  ⟨(f (.ofBits x.bits)).toBits⟩

@[inline] def Single.lift₂ (f : Float32 → Float32 → Float32) (x y : Single) : Single :=
  ⟨(f (.ofBits x.bits) (.ofBits y.bits)).toBits⟩

@[inline] def Double.lift (f : Float → Float) (x : Double) : Double :=
  ⟨(f (.ofBits x.bits)).toBits⟩

@[inline] def Double.lift₂ (f : Float → Float → Float) (x y : Double) : Double :=
  ⟨(f (.ofBits x.bits) (.ofBits y.bits)).toBits⟩

/-- `log (1 + x)` without losing a small `x`: the sum `1 + x` is rounded, and the quotient of `x`
by the rounded difference makes up for what the rounding dropped. -/
def logOnePlus (x : Float) : Float :=
  let sum := 1 + x
  let difference := sum - 1
  if difference == 0 || !x.isFinite then x else Float.log sum * (x / difference)

/-- A type of scores: floating-point words with the arithmetic of summing, averaging and
post-processing. -/
class Score (α : Type) extends Numeric α, FloatWord α where
  add : α → α → α
  sub : α → α → α
  mul : α → α → α
  div : α → α → α
  neg : α → α
  abs : α → α
  exp : α → α
  exp2 : α → α
  logOnePlus : α → α

instance : Score Single where
  add := Single.lift₂ (· + ·)
  sub := Single.lift₂ (· - ·)
  mul := Single.lift₂ (· * ·)
  div := Single.lift₂ (· / ·)
  neg := Single.lift (- ·)
  abs := Single.lift Float32.abs
  exp := Single.lift Float32.exp
  exp2 := Single.lift Float32.exp2
  logOnePlus x := FloatWord.convert (Double.lift Arboretum.logOnePlus (FloatWord.convert x))

instance : Score Double where
  add := Double.lift₂ (· + ·)
  sub := Double.lift₂ (· - ·)
  mul := Double.lift₂ (· * ·)
  div := Double.lift₂ (· / ·)
  neg := Double.lift (- ·)
  abs := Double.lift Float.abs
  exp := Double.lift Float.exp
  exp2 := Double.lift Float.exp2
  logOnePlus := Double.lift Arboretum.logOnePlus

def Score.one {α : Type} [Score α] : α := FloatWord.ofNat 1

end Arboretum

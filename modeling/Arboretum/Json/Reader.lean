import Arboretum.Enumeration
import Arboretum.Json.Basic
import Arboretum.Json.Raw

/-!
Reading typed values out of raw JSON. A reader is given the number of container levels it may
still open and fails on a value of another type, a number out of range, a bad escape or nesting
beyond the bound. What a reader does not ask for is not looked at.
-/

namespace Arboretum

/-- A reader of values of one type. The number bounds the container levels still to be opened. -/
abbrev JsonReader (α : Type) := Nat → RawJson → Option α

namespace JsonReader

/-- A document may nest this many containers. -/
def maxDepth : Nat := 127

def run {α : Type} (reader : JsonReader α) (text : String) : Option α :=
  (RawJson.parse? text).bind (reader maxDepth)

def bool : JsonReader Bool
  | _, .bool value => some value
  | _, _ => none

def text (parts : List StringPart) : Option String := (unescape? parts).map .ofList

def string : JsonReader String
  | _, .string parts => text parts
  | _, _ => none

def number : JsonReader NumberValue
  | _, .number literal => literal.value?
  | _, _ => none

/-- An integer in a range; a number with a fraction or an exponent is none. -/
def integer (least greatest : Int) : JsonReader Int := fun depth raw => do
  match ← number depth raw with
  | .integer n => if least ≤ n ∧ n ≤ greatest then some n else none
  | .double _ => none

def int32 : JsonReader Int32 := fun depth raw =>
  (integer Int32.minValue.toInt Int32.maxValue.toInt depth raw).map .ofInt

def uint32 : JsonReader UInt32 := fun depth raw =>
  (integer 0 (UInt32.size - 1 : Nat) depth raw).map fun n => .ofNat n.toNat

def double : JsonReader Double := fun depth raw => (number depth raw).map (·.toDouble)

def optional {α : Type} (reader : JsonReader α) : JsonReader (Option α)
  | _, .null => some none
  | depth, raw => (reader depth raw).map some

def list {α : Type} (reader : JsonReader α) : JsonReader (List α)
  | depth + 1, .array items => items.mapM (reader depth)
  | _, _ => none

def pair {α : Type} (reader : JsonReader α) : JsonReader (α × α)
  | depth + 1, .array [first, second] => do return (← reader depth first, ← reader depth second)
  | _, _ => none

/-- A constant by its name, or as an object that gives the name the value `null`. -/
def enumeration {α : Type} [Enumeration α] : JsonReader α
  | _, .string parts => (text parts).bind Enumeration.ofName?
  | _ + 1, .object [(key, .null)] => (text key).bind Enumeration.ofName?
  | _, _ => none

/-- The members of an object that belong to the given fields. A field may have several names. Any
repeated field is refused, and any foreign key if the record is closed. -/
def pick (fields : List (List String)) (closed : Bool) :
    List (List StringPart × RawJson) → Option (List (Option RawJson))
  | [] => some (fields.map fun _ => none)
  | (key, value) :: rest => do
    let name ← text key
    let found ← pick fields closed rest
    match fields.findIdx? (·.contains name) with
    | none => if closed then none else some found
    | some field =>
      match found[field]? with
      | some none => some (found.set field (some value))
      | _ => none

/-- The values of a record's fields: an object with the fields in any order, or an array of them
in the order of their declaration, cut short where the later ones may be absent. -/
def record (fields : List (List String)) (closed : Bool) : JsonReader (List (Option RawJson))
  | _ + 1, .object members => pick fields closed members
  | _ + 1, .array items =>
    if items.length ≤ fields.length then
      some (items.map some ++ List.replicate (fields.length - items.length) none)
    else none
  | _, _ => none

/-- Read a record from the values of its fields, one container level down. -/
def recordOf {α : Type} (fields : List (List String)) (closed : Bool)
    (build : Nat → List (Option RawJson) → Option α) : JsonReader α
  | 0, _ => none
  | depth + 1, raw => (record fields closed (depth + 1) raw).bind (build depth)

def required {α : Type} (reader : JsonReader α) (depth : Nat) (field : Option (Option RawJson)) :
    Option α :=
  match field with
  | some (some raw) => reader depth raw
  | _ => none

def allowed {α : Type} (reader : JsonReader α) (depth : Nat) (field : Option (Option RawJson)) :
    Option (Option α) :=
  match field with
  | some (some raw) => optional reader depth raw
  | _ => some none

/-- Put a member into a list sorted by key, in place of one with the same key. -/
def insertMember (key : String) (value : Json) : List (String × Json) → List (String × Json)
  | [] => [(key, value)]
  | (other, old) :: rest =>
    if key = other then (key, value) :: rest
    else if key < other then (key, value) :: (other, old) :: rest
    else (other, old) :: insertMember key value rest

mutual

/-- Any value. Objects are sorted by key and keep the last of the values given to a key. -/
def value : JsonReader Json
  | _, .null => some .null
  | _, .bool b => some (.bool b)
  | _, .number literal =>
    literal.value?.map fun
      | .integer n => .integer n
      | .double x => .double x
  | _, .string parts => (text parts).map .string
  | 0, .array _ => none
  | depth + 1, .array items => (values depth items).map .array
  | 0, .object _ => none
  | depth + 1, .object entries => (members depth [] entries).map .object

def values (depth : Nat) : List RawJson → Option (List Json)
  | [] => some []
  | item :: rest =>
    match value depth item, values depth rest with
    | some item, some rest => some (item :: rest)
    | _, _ => none

def members (depth : Nat) (sorted : List (String × Json)) :
    List (List StringPart × RawJson) → Option (List (String × Json))
  | [] => some sorted
  | (key, raw) :: rest =>
    match text key, value depth raw with
    | some key, some value => members depth (insertMember key value sorted) rest
    | _, _ => none

end

end JsonReader

end Arboretum
